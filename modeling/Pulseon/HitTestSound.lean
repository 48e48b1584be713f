import Mathlib.Data.Prod.Lex
import Pulseon.ChartingSound

/-!
# Hit testing

The candidates of a hit test are a slice of the series that starts at the first
point of the range, so the test finds what a scan of all points finds, with the
index that the point has in the series. A curve's chart has a point for each point
of its evidence, and the hover reads the one at that index.
-/

namespace Pulseon

open Coordinate Scalar

/-! ## The scan -/

/-- Where a hit is in the order of the hits. -/
def PointHit.rank (hit : PointHit) : Int ×ₗ Nat := toLex (hit.distance.totalOrder, hit.pointIndex)

theorem compareHits_gt (left right : PointHit) : compareHits left right = .gt ↔ right.rank < left.rank := by
  have hthen : ∀ a b : Ordering, a.then b = .gt ↔ a = .gt ∨ a = .eq ∧ b = .gt := by
    intro a b; cases a <;> cases b <;> decide
  rw [compareHits, hthen, F64.totalCmp, compare_gt_iff_gt, compare_eq_iff_eq, compare_gt_iff_gt, PointHit.rank,
    PointHit.rank, Prod.Lex.toLex_lt_toLex]
  refine or_congr Iff.rfl (and_congr_left fun _ => eq_comm)

section
variable (hypot : F64 → F64 → F64) (xScale yScale : LinearScale F64) (range : AxisRange F64)
    (cursor : ScreenPoint F64)
  (radius : F64)

def inRange (point : DataPoint F64) : Bool := range.start.le point.x && point.x.le range.stop

/-- The hits of all points of a series, each with its index, and the first nearest of them. -/
def scanPoints (points : List (DataPoint F64)) : Option PointHit :=
  minBy compareHits ((((points.zipIdx).filter fun p => inRange range p.1).map fun p =>
    pointHit hypot xScale yScale cursor p.2 p.1).filter fun hit => hit.distance.le radius)

/-- The point with that index is in the range, and its projection within the radius of the cursor. -/
structure Candidate (points : List (DataPoint F64)) (index : Nat) (point : DataPoint F64) : Prop where
  stored : points[index]? = some point
  visible : inRange range point = true
  near : (pointHit hypot xScale yScale cursor index point).distance.le radius = true

theorem mapIdx_slice {α β : Type*} (f : Nat → α → β) (xs : List α) (lo hi : Nat) :
    (slice xs lo hi).mapIdx (fun offset x => f (lo + offset) x) = (slice xs.zipIdx lo hi).map fun p =>
      f p.2 p.1 := by
  refine List.ext_getElem? fun i => ?_
  rw [List.getElem?_mapIdx, List.getElem?_map, getElem?_slice, getElem?_slice]
  split
  · rw [List.getElem?_zipIdx, Option.map_map, Nat.zero_add]
    rfl
  · rfl

variable {hypot xScale yScale range cursor radius}

theorem slice_inRange (series : Series F64) :
    slice series.points.zipIdx (firstIn series range) (afterIn series range) =
    series.points.zipIdx.filter fun p => inRange range p.1 := by
  refine (filter_eq_slice fun i p hp => ?_).symm
  rw [List.getElem?_zipIdx, Option.map_eq_some_iff] at hp
  obtain ⟨point, hpoint, rfl⟩ := hp
  rw [inRange, Bool.and_eq_true, ← firstIn_le_iff series range hpoint, ← lt_afterIn_iff series range hpoint]

theorem scan_spec {points : List (DataPoint F64)} {result : Option PointHit}
    (h : scanPoints hypot xScale yScale range cursor radius points = result) :
    (result.isSome = true ↔ ∃ i p, Candidate hypot xScale yScale range cursor radius points i p) ∧
      ∀ hit, result = some hit → (∃ p, Candidate hypot xScale yScale range cursor radius points hit.pointIndex p ∧
        hit = pointHit hypot xScale yScale cursor hit.pointIndex p) ∧
        ∀ j q, Candidate hypot xScale yScale range cursor radius points j q →
          hit.rank ≤ (pointHit hypot xScale yScale cursor j q).rank := by
  have hmem : ∀ hit, hit ∈ (((points.zipIdx).filter fun p => inRange range p.1).map fun p =>
      pointHit hypot xScale yScale cursor p.2 p.1).filter (fun hit => hit.distance.le radius) ↔
        ∃ i p, Candidate hypot xScale yScale range cursor radius points i p ∧
          hit = pointHit hypot xScale yScale cursor i p := by
    intro hit
    simp only [List.mem_filter, List.mem_map]
    constructor
    · rintro ⟨⟨⟨p, i⟩, ⟨hzip, hvisible⟩, rfl⟩, hnear⟩
      exact ⟨i, p, ⟨List.mk_mem_zipIdx_iff_getElem?.mp hzip, hvisible, hnear⟩, rfl⟩
    · rintro ⟨i, p, hc, rfl⟩
      exact ⟨⟨(p, i), ⟨List.mk_mem_zipIdx_iff_getElem?.mpr hc.stored, hc.visible⟩, rfl⟩, hc.near⟩
  subst h
  constructor
  · rw [Option.isSome_iff_ne_none, ne_eq, scanPoints, minBy_eq_none, List.eq_nil_iff_forall_not_mem]
    push Not
    constructor
    · rintro ⟨hit, hhit⟩
      obtain ⟨i, p, hc, -⟩ := (hmem hit).mp hhit
      exact ⟨i, p, hc⟩
    · rintro ⟨i, p, hc⟩
      exact ⟨_, (hmem _).mpr ⟨i, p, hc, rfl⟩⟩
  · intro hit hhit
    obtain ⟨hin, hleast⟩ := minBy_spec compareHits_gt hhit
    obtain ⟨i, p, hc, rfl⟩ := (hmem hit).mp hin
    exact ⟨⟨p, hc, rfl⟩, fun j q hq => hleast _ ((hmem _).mpr ⟨j, q, hq, rfl⟩)⟩

end

/-! ## The test -/

section
variable {cursor : ScreenPoint F64} {radius : F64} (hx : cursor.x.isFinite = true) (hy : cursor.y.isFinite = true)
  (hr : radius.isFinite = true) (hnonneg : radius.lt zero = false)
include hx hy hr hnonneg

theorem hitTestPoint_scan (hypot : F64 → F64 → F64) (series : Series F64) {viewport : Viewport F64}
    {canvas : CanvasSize F64}
    {xScale yScale : LinearScale F64} (hxScale : LinearScale.new viewport.x zero canvas.width = .ok xScale)
    (hyScale : LinearScale.new viewport.y canvas.height zero = .ok yScale) :
    hitTestPoint hypot series viewport canvas cursor radius =
      .ok (scanPoints hypot xScale yScale viewport.x cursor radius series.points) := by
  have hguard : (!cursor.x.isFinite || !cursor.y.isFinite || !radius.isFinite || radius.lt zero) = false := by
    rw [hx, hy, hr, hnonneg]
    rfl
  have hslice := mapIdx_slice (pointHit hypot xScale yScale cursor) series.points (firstIn series viewport.x)
    (afterIn series viewport.x)
  rw [slice_inRange] at hslice
  unfold hitTestPoint scanPoints
  rw [hguard, hxScale, hyScale, ← hslice]
  rfl

end

/-! ## The hover -/

section
variable {accepts : Int → Bool} {store : Store} {selection : CurveSelection}

/-- The chart has a point for each point of the evidence. -/
def Drawn (curve : CurveSeriesSnapshot) : Prop :=
  ∀ series, curve.chartSeries = some series → series.points = curve.evidence.points.map chartPoint

theorem chartSeries_points {run : Run} {evidence : AlignedMetricResult} {series : Series F64}
    (h : chartSeries run evidence = .ok series) : series.points = evidence.points.map chartPoint := by
  unfold chartSeries at h
  cases hid : SeriesId.new run.runId with
  | error e => rw [hid] at h; cases h
  | ok id =>
    rw [hid] at h
    change Series.new id (evidence.points.map chartPoint) = .ok series at h
    unfold Series.new at h
    split at h
    · cases h; rfl
    · cases h

theorem curveSeries_drawn {viewport : AlignmentViewport} {reduction : AlignmentReduction} {run : Run}
    {curve : CurveSeriesSnapshot} (h : curveSeries accepts store selection viewport reduction run = .ok curve) :
    Drawn curve := by
  unfold curveSeries at h
  cases hread : runEvidence accepts store selection viewport reduction run with
  | error e => rw [hread] at h; cases h
  | ok evidence =>
    rw [hread] at h
    by_cases hd : evidence.completeness.drawable = true
    · cases hchart : chartSeries run evidence with
      | error e => simp [attempt, Except.mapError, Except.map, bind, Except.bind, hd, hchart] at h
      | ok chart =>
        simp only [attempt, Except.mapError, Except.map, bind, Except.bind, hd, hchart, ite_true, pure,
          Except.pure] at h
        cases h
        intro series hs
        cases hs
        exact chartSeries_points hchart
    · simp only [attempt, Except.mapError, bind, Except.bind, hd, pure, Except.pure] at h
      cases h
      intro series hs
      cases hs

theorem curvesOf_drawn {viewport : AlignmentViewport} {reduction : AlignmentReduction} {runs : List Run}
    {bounds : Option (Int × Int)} {series : List CurveSeriesSnapshot}
    {out : Option (Int × Int) × List CurveSeriesSnapshot}
    (h : curvesOf accepts store selection viewport reduction runs bounds series = .ok out)
    (hseries : ∀ curve ∈ series, Drawn curve) : ∀ curve ∈ out.2, Drawn curve := by
  induction runs generalizing bounds series with
  | nil => cases h; exact hseries
  | cons run rest ih =>
    unfold curvesOf at h
    cases hs : curveSeries accepts store selection viewport reduction run with
    | error e => rw [hs] at h; cases h
    | ok curve =>
      rw [hs] at h
      refine ih h fun c hc => ?_
      rcases List.mem_append.mp hc with hc | hc
      · exact hseries c hc
      · rw [List.mem_singleton.mp hc]
        exact curveSeries_drawn hs

theorem queryCurves_drawn {viewport : AlignmentViewport} {pointBudget : UInt32} {snapshot : CurveSnapshot}
    (h : queryCurves accepts store selection viewport pointBudget = .ok snapshot) :
    ∀ curve ∈ snapshot.series, Drawn curve := by
  unfold queryCurves at h
  cases hruns : attempt .storage (store.getRuns selection.runIds) with
  | error e => rw [hruns] at h; cases h
  | ok runs =>
    cases hreduction : attempt .alignment (AlignmentReduction.newScreenBudget pointBudget 1) with
    | error e => rw [hruns, hreduction] at h; cases h
    | ok reduction =>
      cases hcurves : curvesOf accepts store selection viewport reduction runs none [] with
      | error e =>
        rw [hruns, hreduction] at h
        simp only [bind, Except.bind, hcurves] at h
        cases h
      | ok out =>
        rw [hruns, hreduction] at h
        simp only [bind, Except.bind, hcurves] at h
        cases hrange : realRangeOf out.1 with
        | error e => rw [hrange] at h; cases h
        | ok range =>
          rw [hrange] at h
          cases h
          exact curvesOf_drawn hcurves (by simp)

end

section
variable (hypot : F64 → F64 → F64) (viewport : Viewport F64) (canvas : CanvasSize F64) (cursor : ScreenPoint F64)

/-- The cursor hits the curve, and the index of the hit selects the evidence whose
point is the one under the cursor. -/
structure CurveHit (curve : CurveSeriesSnapshot) (hit : PointHit) (aligned : AlignedMetricPoint) : Prop where
  chart : ∃ series, curve.chartSeries = some series ∧
    hitTestPoint hypot series viewport canvas cursor hoverRadius = .ok (some hit) ∧
    series.points[hit.pointIndex]? = some (chartPoint aligned)
  selected : curve.evidence.points[hit.pointIndex]? = some aligned

/-- What the curves seen so far leave as the nearest point. -/
def NearestOf (curves : List CurveSeriesSnapshot) : Option (F64 × HoverPoint) → Prop
  | none => ∀ curve ∈ curves, ∀ hit aligned, ¬ CurveHit hypot viewport canvas cursor curve hit aligned
  | some (distance, hover) =>
    (∃ curve ∈ curves, ∃ hit aligned, CurveHit hypot viewport canvas cursor curve hit aligned ∧
      hit.distance = distance ∧
      hover = hoverPoint curve.run aligned) ∧
    ∀ curve ∈ curves, ∀ hit aligned, CurveHit hypot viewport canvas cursor curve hit aligned →
      distance.le hit.distance = true

variable {hypot viewport canvas cursor} {curve : CurveSeriesSnapshot} {hit : PointHit}
    {aligned : AlignedMetricPoint}

variable (hypot viewport canvas cursor) in
theorem hitTestPoint_total (series : Series F64) (radius : F64) :
    ∃ result, hitTestPoint hypot series viewport canvas cursor radius = .ok result := by
  obtain ⟨xScale, yScale, hx, hy⟩ := scales_ok viewport canvas
  unfold hitTestPoint
  split
  · exact ⟨none, rfl⟩
  · rw [hx, hy]
    exact ⟨_, rfl⟩

theorem hit_found {series : Series F64} {radius : F64}
    (h : hitTestPoint hypot series viewport canvas cursor radius = .ok (some hit)) :
    (∃ point, series.points[hit.pointIndex]? = some point) ∧ hit.distance.le radius = true := by
  by_cases hguard : (!cursor.x.isFinite || !cursor.y.isFinite || !radius.isFinite || radius.lt zero) = true
  · unfold hitTestPoint at h
    rw [hguard] at h
    cases h
  · simp only [Bool.or_eq_true, Bool.not_eq_true', not_or, Bool.not_eq_false, Bool.not_eq_true] at hguard
    obtain ⟨⟨⟨hx, hy⟩, hr⟩, hnonneg⟩ := hguard
    obtain ⟨xScale, yScale, hxScale, hyScale⟩ := scales_ok viewport canvas
    rw [hitTestPoint_scan hx hy hr hnonneg hypot series hxScale hyScale] at h
    obtain ⟨⟨point, hc, heq⟩, -⟩ := (scan_spec (Except.ok.inj h)).2 hit rfl
    refine ⟨⟨point, hc.stored⟩, ?_⟩
    rw [heq]
    exact hc.near

namespace CurveHit

theorem unique (h : CurveHit hypot viewport canvas cursor curve hit aligned) {hit' : PointHit}
    {aligned' : AlignedMetricPoint} (h' : CurveHit hypot viewport canvas cursor curve hit' aligned') :
    hit' = hit := by
  obtain ⟨series, hseries, htest, -⟩ := h.chart
  obtain ⟨series', hseries', htest', -⟩ := h'.chart
  rw [hseries] at hseries'
  cases hseries'
  rw [htest] at htest'
  cases htest'
  rfl

theorem ordered (h : CurveHit hypot viewport canvas cursor curve hit aligned) : hit.distance.isNan = false := by
  obtain ⟨series, -, htest, -⟩ := h.chart
  have hle := (hit_found htest).2
  simp only [F64.le, Bool.and_eq_true, Bool.not_eq_true'] at hle
  exact hle.1.1

/-- A hit on a drawn curve selects a point of its evidence. -/
theorem of_drawn (hd : Drawn curve) {series : Series F64} (hseries : curve.chartSeries = some series)
    (htest : hitTestPoint hypot series viewport canvas cursor hoverRadius = .ok (some hit)) :
    ∃ aligned, CurveHit hypot viewport canvas cursor curve hit aligned := by
  obtain ⟨point, hpoint⟩ := (hit_found htest).1
  have hmap := hpoint
  rw [hd series hseries, List.getElem?_map, Option.map_eq_some_iff] at hmap
  obtain ⟨aligned, haligned, rfl⟩ := hmap
  exact ⟨aligned, ⟨series, hseries, htest, hpoint⟩, haligned⟩

end CurveHit

namespace NearestOf
variable {curves : List CurveSeriesSnapshot} {nearest : Option (F64 × HoverPoint)}
  (h : NearestOf hypot viewport canvas cursor curves nearest)
include h

/-- The nearest point stays when no hit of the next curve is nearer. -/
theorem extend {n : F64 × HoverPoint} (hn : nearest = some n)
    (hcurve : ∀ hit aligned, CurveHit hypot viewport canvas cursor curve hit aligned → n.1.le hit.distance = true) :
    NearestOf hypot viewport canvas cursor (curves ++ [curve]) nearest := by
  subst hn
  obtain ⟨⟨c, hc, hfound⟩, hleast⟩ := h
  refine ⟨⟨c, List.mem_append_left _ hc, hfound⟩, fun c hc hit aligned hhit => ?_⟩
  rcases List.mem_append.mp hc with hc | hc
  · exact hleast c hc hit aligned hhit
  · rw [List.mem_singleton.mp hc] at hhit
    exact hcurve hit aligned hhit

theorem missed (hmissed : ∀ hit aligned, ¬ CurveHit hypot viewport canvas cursor curve hit aligned) :
    NearestOf hypot viewport canvas cursor (curves ++ [curve]) nearest := by
  cases nearest with
  | none =>
    intro c hc
    rcases List.mem_append.mp hc with hc | hc
    · exact h c hc
    · rw [List.mem_singleton.mp hc]; exact hmissed
  | some n => exact h.extend rfl fun hit aligned hhit => absurd hhit (hmissed hit aligned)

theorem kept {n : F64 × HoverPoint} (hn : nearest = some n)
    (hhit : CurveHit hypot viewport canvas cursor curve hit aligned) (hle : n.1.le hit.distance = true) :
    NearestOf hypot viewport canvas cursor (curves ++ [curve]) nearest := by
  refine h.extend hn fun hit' aligned' hhit' => ?_
  rw [hhit.unique hhit']
  exact hle

theorem replaced (hhit : CurveHit hypot viewport canvas cursor curve hit aligned)
    (hnearer : nearest.any (fun n => n.1.le hit.distance) = false) :
    NearestOf hypot viewport canvas cursor (curves ++ [curve])
      (some (hit.distance, hoverPoint curve.run aligned)) := by
  refine ⟨⟨curve, by simp, hit, aligned, hhit, rfl, rfl⟩, fun c hc hit' aligned' hhit' => ?_⟩
  have hnan := hhit.ordered
  rcases List.mem_append.mp hc with hc | hc
  · cases nearest with
    | none => exact absurd hhit' (h c hc hit' aligned')
    | some n =>
      obtain ⟨⟨_, _, _, _, hfirst, hdistance, -⟩, hleast⟩ := h
      have hle := hleast c hc hit' aligned' hhit'
      rw [Option.any_some] at hnearer
      simp only [← hdistance, F64.le, hfirst.ordered, hnan, hhit'.ordered, Bool.not_false, Bool.true_and,
        decide_eq_true_eq,
        decide_eq_false_iff_not] at hle hnearer ⊢
      omega
  · rw [List.mem_singleton.mp hc] at hhit'
    rw [hhit.unique hhit']
    simp [F64.le, hnan]

end NearestOf

/-- The loop never leaves the function, and ends with the nearest hit of the curves. -/
theorem nearestCurve_spec {rest : List CurveSeriesSnapshot} (hdrawn : ∀ curve ∈ rest, Drawn curve)
    {seen : List CurveSeriesSnapshot} {nearest : Option (F64 × HoverPoint)}
    (h : NearestOf hypot viewport canvas cursor seen nearest) :
    ∃ out, nearestCurve hypot viewport canvas cursor rest nearest = some out ∧
      NearestOf hypot viewport canvas cursor (seen ++ rest) out := by
  induction rest generalizing seen nearest with
  | nil => exact ⟨nearest, rfl, by rw [List.append_nil]; exact h⟩
  | cons curve rest ih =>
    obtain ⟨hcurve, hrest⟩ := List.forall_mem_cons.mp hdrawn
    have hnext : ∀ nearest, NearestOf hypot viewport canvas cursor (seen ++ [curve]) nearest →
        ∃ out, nearestCurve hypot viewport canvas cursor rest nearest = some out ∧
          NearestOf hypot viewport canvas cursor (seen ++ curve :: rest) out := by
      intro nearest hn
      have hloop := ih hrest hn
      rwa [List.append_assoc] at hloop
    unfold nearestCurve
    cases hseries : curve.chartSeries with
    | none =>
      refine hnext nearest (h.missed fun hit aligned hhit => ?_)
      obtain ⟨series, hs, -⟩ := hhit.chart
      rw [hseries] at hs
      cases hs
    | some series =>
      obtain ⟨result, htest⟩ := hitTestPoint_total hypot viewport canvas cursor series hoverRadius
      simp only [htest]
      cases result with
      | none =>
        refine hnext nearest (h.missed fun hit aligned hhit => ?_)
        obtain ⟨series', hs, htest', -⟩ := hhit.chart
        rw [hseries] at hs
        cases hs
        rw [htest] at htest'
        cases htest'
      | some hit =>
        obtain ⟨aligned, hhit⟩ := CurveHit.of_drawn hcurve hseries htest
        dsimp only
        split
        · rename_i hkept
          obtain ⟨n, hn, hle⟩ := (Option.any_eq_true _ _).mp hkept
          exact hnext nearest (h.kept hn hhit hle)
        · rename_i hnearer
          rw [hhit.selected]
          exact hnext _ (h.replaced hhit (by simpa using hnearer))

end

/-! ## Against the scan -/

/-- The test finds what a scan of all points does: a nearest candidate with the least
index. The index selects the evidence of that point, so the hover shows the nearest
hit among the curves of a snapshot. -/
theorem hit_test_point_eq_scan (hypot : F64 → F64 → F64) (series : Series F64) (viewport : Viewport F64)
    (canvas : CanvasSize F64) {cursor : ScreenPoint F64} {radius : F64} (hx : cursor.x.isFinite = true)
    (hy : cursor.y.isFinite = true) (hr : radius.isFinite = true) (hnonneg : radius.lt zero = false) :
    (∃ xScale yScale result, LinearScale.new viewport.x zero canvas.width = .ok xScale ∧
      LinearScale.new viewport.y canvas.height zero = .ok yScale ∧
      hitTestPoint hypot series viewport canvas cursor radius = .ok result ∧
      result = scanPoints hypot xScale yScale viewport.x cursor radius series.points ∧
      (result.isSome = true ↔ ∃ i p, Candidate hypot xScale yScale viewport.x cursor radius series.points i p) ∧
      ∀ hit, result = some hit →
        (∃ p, Candidate hypot xScale yScale viewport.x cursor radius series.points hit.pointIndex p ∧
          hit = pointHit hypot xScale yScale cursor hit.pointIndex p) ∧
        ∀ j q, Candidate hypot xScale yScale viewport.x cursor radius series.points j q →
          hit.rank ≤ (pointHit hypot xScale yScale cursor j q).rank) ∧
    ∀ (accepts : Int → Bool) (store : Store) (selection : CurveSelection) (shown : AlignmentViewport)
      (pointBudget : UInt32)
      (snapshot : CurveSnapshot), queryCurves accepts store selection shown pointBudget = .ok snapshot →
        ∃ nearest, NearestOf hypot viewport canvas cursor snapshot.series nearest ∧
          hitTest hypot snapshot viewport canvas.width canvas.height cursor = nearest.map Prod.snd := by
  obtain ⟨xScale, yScale, hxScale, hyScale⟩ := scales_ok viewport canvas
  constructor
  · obtain ⟨hsome, hleast⟩ :=
      scan_spec (Eq.refl (scanPoints hypot xScale yScale viewport.x cursor radius series.points))
    exact ⟨xScale, yScale, _, hxScale, hyScale,
      hitTestPoint_scan hx hy hr hnonneg hypot series hxScale hyScale, rfl, hsome, hleast⟩
  · intro accepts store selection shown pointBudget snapshot hquery
    have hnone : NearestOf hypot viewport canvas cursor [] none := fun _ hc => by cases hc
    obtain ⟨nearest, hloop, hnearest⟩ := nearestCurve_spec (queryCurves_drawn hquery) hnone
    refine ⟨nearest, hnearest, ?_⟩
    have hcanvas : CanvasSize.new canvas.width canvas.height = .ok canvas := dif_pos canvas.accepted
    unfold hitTest
    rw [hcanvas, Except.toOption, Option.bind_eq_bind, Option.bind_some, hloop]
    cases nearest <;> rfl

/-- The hypotenuse where one of the legs is zero. -/
def axisHypot (x y : F64) : F64 := .ofMagnitude false (max x.magnitude y.magnitude)

theorem hit_test_point_eq_scan_corner : ∃ xScale yScale hit,
    hitTestPoint axisHypot twoPoints unitViewport smallCanvas ⟨zero, F64.one⟩ hoverRadius = .ok (some hit) ∧
      scanPoints axisHypot xScale yScale unitRange ⟨zero, F64.one⟩ hoverRadius twoPoints.points = some hit ∧
      hit.pointIndex = 0 := by
  obtain ⟨⟨xScale, yScale, result, -, -, htest, hscan, -⟩, -⟩ :=
    @hit_test_point_eq_scan axisHypot twoPoints unitViewport
    smallCanvas ⟨zero, F64.one⟩ hoverRadius rfl rfl rfl rfl
  have hfirst :
    (hitTestPoint axisHypot twoPoints unitViewport smallCanvas ⟨zero, F64.one⟩ hoverRadius).toOption.join.map
      PointHit.pointIndex = some 0 := by decide +kernel
  rw [htest, Except.toOption, Option.join_some, Option.map_eq_some_iff] at hfirst
  obtain ⟨hit, rfl, hindex⟩ := hfirst
  exact ⟨xScale, yScale, hit, htest, hscan.symm, hindex⟩

end Pulseon
