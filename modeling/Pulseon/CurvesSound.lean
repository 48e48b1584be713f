import Pulseon.AlignedWindow
import Pulseon.RangeSound

/-!
# Drawable curves

Evidence that is complete or qualified has finite values and an axis that never
decreases, so the chart core takes its points. Its reduction keeps the ends of
the series, so the overview's bounds are those of the whole series.
-/

namespace Pulseon

/-! ## Series -/

section
variable {K : Type} [Coordinate K]

open Coordinate

theorem checkPoints_ok {index : Nat} {previous : Option (DataPoint K)} {points : List (DataPoint K)}
    (hfinite : ∀ p ∈ points, isFinite p.x = true ∧ isFinite p.y = true)
    (hchain : (previous.toList ++ points).Pairwise fun p q => lt q.x p.x = false) :
    checkPoints index previous points = .ok () := by
  induction points generalizing index previous with
  | nil => rfl
  | cons point points ih =>
    obtain ⟨hpoint, hrest⟩ := List.forall_mem_cons.mp hfinite
    have hprevious : previous.any (fun p => lt point.x p.x) = false := by
      cases previous with
      | none => rfl
      | some p =>
        rw [Option.toList_some, List.cons_append, List.nil_append, List.pairwise_cons] at hchain
        exact hchain.1 point (List.mem_cons_self ..)
    unfold checkPoints
    rw [hpoint.1, hpoint.2, hprevious]
    exact ih hrest (hchain.sublist (List.sublist_append_right _ _))

theorem series_ok (id : SeriesId) {points : List (DataPoint K)} (h : checkPoints 0 none points = .ok ()) :
    ∃ series, Series.new id points = .ok series ∧ series.points = points := by
  refine ⟨⟨id, points, h⟩, ?_, rfl⟩
  unfold Series.new
  split
  · rfl
  · rename_i error he
    rw [h] at he
    cases he

end

/-! ## Evidence -/

/-- The lifecycle never hides that evidence is invalid or unavailable. -/
theorem drawable_qualified (runStatus : RunStatus) (completeness : EvidenceCompleteness)
    (reasons : List EvidenceReason) :
    (qualifyLifecycle runStatus completeness reasons).1.drawable = completeness.drawable := by
  cases runStatus <;> cases completeness <;> rfl

theorem sound_of_drawable {result : AlignmentQueryResult} {runStatus : RunStatus}
    (h : (alignedMetricResult result runStatus).completeness.drawable = true) :
    AlignmentReason.negativeAxis ∉ result.reasons ∧ AlignmentReason.decreasingAxis ∉ result.reasons ∧
      ∀ p ∈ result.points, p.point.valueF64.isFinite = true := by
  have hvalid : (result.reasons.map AlignmentReason.evidence ++
      if nonFinite result.points then [EvidenceReason.nonFiniteValue] else []).any EvidenceReason.invalidates =
        false := by
    by_contra hinvalid
    rw [Bool.not_eq_false] at hinvalid
    unfold alignedMetricResult at h
    unfold nonFinite at hinvalid
    simp only [hinvalid, ite_true, drawable_qualified] at h
    cases h
  simp only [List.any_append, Bool.or_eq_false_iff, List.any_map, List.any_eq_false] at hvalid
  obtain ⟨haxis, hvalue⟩ := hvalid
  refine ⟨fun hmem => haxis _ hmem rfl, fun hmem => haxis _ hmem rfl, ?_⟩
  by_cases hn : nonFinite result.points = true
  · simp [hn, EvidenceReason.invalidates] at hvalue
  · simp only [nonFinite, Bool.not_eq_true, List.any_eq_false, Bool.not_eq_true', Bool.not_eq_false] at hn
    exact hn

/-! ## The evidence of a run -/

def runAxis (runs : List Run) (axis : AlignmentAxis) (runId : RunId) : AxisExpression :=
  match axis with
  | .step => .step
  | .elapsedTime => .elapsed (((runs.find? fun run => run.runId == runId).map Run.startedAt).getD 0)

section
variable {accepts : Int → Bool} {store : Store} {selection : CurveSelection} {viewport : AlignmentViewport}
  {reduction : AlignmentReduction} {run : Run} {evidence : AlignedMetricResult}

/-- The effective series of a run with its axis values, not cut to a viewport. -/
def fullSeries (store : Store) (selection : CurveSelection) (runId : RunId) : List AlignedMetricPoint :=
  alignedSeries (.project store.points) (runAxis store.runs selection.axis runId)
    ⟨runId, selection.metricKey, selection.axis, ⟨0, 0, Int.le_refl 0⟩, .full⟩

theorem runEvidence_result (h : runEvidence accepts store selection viewport reduction run = .ok evidence) :
    ∃ result, queryAlignedMetric accepts (.project store.points) (curveQuery selection viewport reduction run)
      (runAxis store.runs selection.axis run.runId) = .ok result ∧
        evidence = alignedMetricResult result run.status := by
  unfold runEvidence alignedEvidence at h
  have hread : (MetricReader.project store.runs store.points).queryAlignedMetric accepts
      (curveQuery selection viewport reduction run) = queryAlignedMetric accepts (.project store.points)
        (curveQuery selection viewport reduction run) (runAxis store.runs selection.axis run.runId) := by
    unfold runAxis
    cases haxis : selection.axis with
    | step => exact reader_step haxis
    | elapsedTime =>
      cases hfind : store.runs.find? fun r => r.runId == run.runId with
      | some found =>
        have hstart : runStartMillis store.runs run.runId = .ok found.startedAt := by
          unfold runStartMillis; rw [hfind]
        exact reader_elapsed haxis hstart
      | none =>
        -- without the run the reader fails
        have hstart : runStartMillis store.runs run.runId = .error (.runNotFound run.runId) := by
          unfold runStartMillis; rw [hfind]
        simp only [MetricReader.queryAlignedMetric, curveQuery, haxis, hstart] at h
        cases hv : validateAlignmentIdentity ⟨run.runId, selection.metricKey, .elapsedTime, viewport, reduction⟩ <;>
          rw [hv] at h <;> cases h
  rw [hread] at h
  cases hq : queryAlignedMetric accepts (.project store.points) (curveQuery selection viewport reduction run)
      (runAxis store.runs selection.axis run.runId) with
  | error e => rw [hq] at h; cases h
  | ok result => rw [hq] at h; cases h; exact ⟨result, rfl, rfl⟩

theorem pointsOf_mem_series {rows : List AlignedRow} {screenLimits : Option (Nat × Nat)} {p : AlignedMetricPoint}
    (h : p ∈ pointsOf (selectedRows viewport screenLimits rows)) : ∃ q ∈ rows.map AlignedRow.point, p.Same q := by
  obtain ⟨r, hr, rfl⟩ := mem_pointsOf.mp h
  obtain ⟨z, hz, -, rfl⟩ := mem_selectedRows hr
  exact ⟨z.point, List.mem_map_of_mem (visible_sub hz), returned_same screenLimits z⟩

theorem evidence_mem_series (h : runEvidence accepts store selection viewport reduction run = .ok evidence)
    {p : AlignedMetricPoint} (hp : p ∈ evidence.points) :
    ∃ q ∈ fullSeries store selection run.runId, p.Same q := by
  obtain ⟨result, hq, rfl⟩ := runEvidence_result h
  obtain ⟨-, -, rfl⟩ := queryAlignedMetric_ok_iff.mp hq
  exact pointsOf_mem_series hp

section
variable (hd : evidence.completeness.drawable = true)
include hd

/-- Drawable points have finite values and an axis that never decreases. -/
theorem drawable_points (h : runEvidence accepts store selection viewport reduction run = .ok evidence) :
    (∀ p ∈ evidence.points, p.point.valueF64.isFinite = true) ∧
      evidence.points.Pairwise fun p q => p.axisValue ≤ q.axisValue := by
  obtain ⟨result, hq, rfl⟩ := runEvidence_result h
  obtain ⟨-, hdecreasing, hfinite⟩ := sound_of_drawable hd
  refine ⟨hfinite, ?_⟩
  obtain ⟨-, -, rfl⟩ := queryAlignedMetric_ok_iff.mp hq
  rw [decreasing_mem_iff, Bool.not_eq_true, orderedRows_increasing] at hdecreasing
  obtain ⟨kept, hsub, haxis⟩ := selected_axis (v := viewport) orderedRows_strict hdecreasing
    (curveQuery selection viewport reduction run).screenLimits
  have hkept := List.pairwise_map.mpr (hdecreasing.sublist hsub)
  rw [← haxis] at hkept
  exact List.pairwise_map.mp hkept

theorem drawable_nonnegative (h : runEvidence accepts store selection viewport reduction run = .ok evidence) :
    ∀ p ∈ fullSeries store selection run.runId, 0 ≤ p.axisValue := by
  obtain ⟨result, hq, rfl⟩ := runEvidence_result h
  obtain ⟨hnegative, -, -⟩ := sound_of_drawable hd
  obtain ⟨-, -, rfl⟩ := queryAlignedMetric_ok_iff.mp hq
  rw [negative_mem_iff, hasNegativeAxis, List.any_eq_true] at hnegative
  intro p hp
  obtain ⟨r, hr, rfl⟩ := List.mem_map.mp hp
  by_contra hlt
  exact hnegative ⟨r, hr, decide_eq_true (Int.not_le.mp hlt)⟩

theorem chart_ok (h : runEvidence accepts store selection viewport reduction run = .ok evidence)
    (hstored : ∀ p ∈ fullSeries store selection run.runId, F64.I64 p.axisValue) :
    ∃ chart, chartSeries run evidence = .ok chart ∧ chart.points = evidence.points.map chartPoint := by
  have hnamed : blank run.runId = false := by
    obtain ⟨result, hq, -⟩ := runEvidence_result h
    have hv := (queryAlignedMetric_ok_iff.mp hq).1
    unfold validateAlignmentIdentity curveQuery at hv
    by_cases hb : blank run.runId = true
    · simp [hb] at hv
    · simpa using hb
  obtain ⟨hfinite, hsorted⟩ := drawable_points hd h
  have hI64 : ∀ p ∈ evidence.points, F64.I64 p.axisValue := fun p hp => by
    obtain ⟨q, hq, hsame⟩ := evidence_mem_series h hp
    exact hsame.axisValue ▸ hstored q hq
  have hcheck : checkPoints 0 none (evidence.points.map chartPoint) = .ok () := by
    apply checkPoints_ok
    · rw [List.forall_mem_map]
      exact fun p hp => ⟨F64.isFinite_ofInt (F64.I64.limit (hI64 p hp)), hfinite p hp⟩
    · rw [Option.toList_none, List.nil_append, List.pairwise_map]
      exact hsorted.imp_of_mem fun hp hq hle => F64.lt_ofInt (hI64 _ hp) (hI64 _ hq) hle
  obtain ⟨chart, hchart, hpoints⟩ := series_ok ⟨run.runId, hnamed⟩ hcheck
  refine ⟨chart, ?_, hpoints⟩
  unfold chartSeries SeriesId.new
  rw [dif_pos hnamed]
  exact hchart

end

end

/-! ## Bounds -/

/-- The least and the greatest of the values, when there are any. -/
def Bounding (values : Int → Prop) : Option (Int × Int) → Prop
  | none => ∀ n, ¬ values n
  | some (lo, hi) => values lo ∧ values hi ∧ ∀ n, values n → lo ≤ n ∧ n ≤ hi

theorem Bounding.extend {values : Int → Prop} {bounds : Option (Int × Int)} (h : Bounding values bounds) (x : Int) :
    Bounding (fun n => values n ∨ n = x) (extendBounds bounds x) := by
  cases bounds with
  | none => exact ⟨Or.inr rfl, Or.inr rfl, fun n hn => by rcases hn with hn | rfl; exact absurd hn (h n); omega⟩
  | some b =>
    obtain ⟨hlo, hhi, hall⟩ := h
    refine ⟨?_, ?_, ?_⟩
    · by_cases hx : x ≤ b.1
      · exact Or.inr (Int.min_eq_right hx)
      · left; rwa [Int.min_eq_left (by omega)]
    · by_cases hx : b.2 ≤ x
      · exact Or.inr (Int.max_eq_right hx)
      · left; rwa [Int.max_eq_left (by omega)]
    · intro n hn
      rcases hn with hn | rfl
      · have := hall n hn; omega
      · omega

theorem Bounding.congr {values values' : Int → Prop} {bounds : Option (Int × Int)} (h : Bounding values bounds)
    (he : ∀ n, values n ↔ values' n) : Bounding values' bounds := by
  have : values = values' := funext fun n => propext (he n)
  rwa [← this]

theorem Bounding.foldl {values : Int → Prop} {bounds : Option (Int × Int)} (h : Bounding values bounds)
    (l : List Int) :
    Bounding (fun n => values n ∨ n ∈ l) (l.foldl extendBounds bounds) := by
  induction l generalizing values bounds with
  | nil => exact h.congr fun n => by simp
  | cons x l ih =>
    refine (ih (h.extend x)).congr fun n => ?_
    rw [List.mem_cons, or_assoc]

/-- More values between the same extremes have the same bounds. -/
theorem Bounding.widen {values more : Int → Prop} {bounds : Option (Int × Int)} (h : Bounding values bounds)
    (hsub : ∀ n, values n → more n) (hbetween : ∀ n, more n → ∃ a b, values a ∧ values b ∧ a ≤ n ∧ n ≤ b) :
    Bounding more bounds := by
  cases bounds with
  | none =>
    intro n hn
    obtain ⟨a, -, ha, -⟩ := hbetween n hn
    exact h a ha
  | some b =>
    obtain ⟨hlo, hhi, hall⟩ := h
    refine ⟨hsub _ hlo, hsub _ hhi, fun n hn => ?_⟩
    obtain ⟨x, y, hx, hy, hxn, hny⟩ := hbetween n hn
    have := hall x hx
    have := hall y hy
    omega

/-! ## query_curves -/

section
variable (accepts : Int → Bool) (store : Store) (selection : CurveSelection) (viewport : AlignmentViewport)
  (reduction : AlignmentReduction)

/-- The series of a snapshot: a run's evidence and, where it is drawable, the
chart of its points. -/
structure Charted (s : CurveSeriesSnapshot) : Prop where
  evidence : runEvidence accepts store selection viewport reduction s.run = .ok s.evidence
  chart : s.evidence.completeness.drawable = true → ∃ chart, chartSeries s.run s.evidence = .ok chart ∧
    s.chartSeries = some chart ∧ ∀ i : Nat, chart.points[i]? = s.evidence.points[i]?.map chartPoint
  undrawn : s.evidence.completeness.drawable = false → s.chartSeries = none

/-- The axis values that the bounds are taken of. -/
def ShownValue (series : List CurveSeriesSnapshot) (n : Int) : Prop :=
  ∃ s ∈ series, s.evidence.completeness.drawable = true ∧
    ∃ p ∈ s.evidence.points, viewport.holds p.axisValue = true ∧ p.axisValue = n

/-- The axis values of the full effective series of the drawable runs. -/
def DrawableValue (series : List CurveSeriesSnapshot) (n : Int) : Prop :=
  ∃ s ∈ series, s.evidence.completeness.drawable = true ∧
    ∃ p ∈ fullSeries store selection s.run.runId, p.axisValue = n

section
variable {accepts store selection viewport reduction}

theorem Bounding.evidence {values : Int → Prop} {bounds : Option (Int × Int)} (h : Bounding values bounds)
    (s : CurveSeriesSnapshot) :
    Bounding (fun n => values n ∨ ShownValue viewport [s] n) (evidenceBounds viewport bounds s.evidence) := by
  unfold evidenceBounds
  by_cases hd : s.evidence.completeness.drawable = true
  · rw [if_pos hd]
    refine (h.foldl _).congr fun n => or_congr_right ?_
    simp only [List.mem_filter, List.mem_map, ShownValue, List.mem_singleton, exists_eq_left, hd, true_and]
    constructor
    · rintro ⟨⟨p, hp, rfl⟩, hv⟩; exact ⟨p, hp, hv, rfl⟩
    · rintro ⟨p, hp, hv, rfl⟩; exact ⟨⟨p, hp, rfl⟩, hv⟩
  · rw [if_neg hd]
    exact h.congr fun n => by simp [ShownValue, hd]

theorem curveSeries_ok {run : Run} {evidence : AlignedMetricResult}
    (h : runEvidence accepts store selection viewport reduction run = .ok evidence)
    (hstored : ∀ p ∈ fullSeries store selection run.runId, F64.I64 p.axisValue) :
    ∃ s, curveSeries accepts store selection viewport reduction run = .ok s ∧ s.run = run ∧
      Charted accepts store selection viewport reduction s := by
  by_cases hd : evidence.completeness.drawable = true
  · obtain ⟨chart, hchart, hpoints⟩ := chart_ok hd h hstored
    refine ⟨⟨run, evidence, some chart⟩, ?_, rfl, h, fun _ => ⟨chart, hchart, rfl, fun i => ?_⟩, fun hd' => ?_⟩
    · simp [curveSeries, attempt, h, hd, hchart, Except.mapError, Except.map, bind, Except.bind, pure, Except.pure]
    · rw [hpoints, List.getElem?_map]
    · rw [hd] at hd'; cases hd'
  · refine ⟨⟨run, evidence, none⟩, ?_, rfl, h, fun hd' => absurd hd' hd, fun _ => rfl⟩
    simp [curveSeries, attempt, h, hd, Except.mapError, bind, Except.bind, pure, Except.pure]

theorem curvesOf_ok {runs : List Run}
    (hreads : ∀ run ∈ runs, ∃ evidence, runEvidence accepts store selection viewport reduction run = .ok evidence)
    (hstored : ∀ run ∈ runs, ∀ p ∈ fullSeries store selection run.runId, F64.I64 p.axisValue)
    (bounds : Option (Int × Int)) (series : List CurveSeriesSnapshot) :
    ∃ out snapshots, curvesOf accepts store selection viewport reduction runs bounds series =
        .ok (out, series ++ snapshots) ∧ snapshots.map CurveSeriesSnapshot.run = runs ∧
      (∀ s ∈ snapshots, Charted accepts store selection viewport reduction s) ∧
      ∀ values, Bounding values bounds → Bounding (fun n => values n ∨ ShownValue viewport snapshots n) out := by
  induction runs generalizing bounds series with
  | nil =>
    refine ⟨bounds, [], by rw [List.append_nil]; rfl, rfl, by simp, fun values h => h.congr fun n => ?_⟩
    simp [ShownValue]
  | cons run rest ih =>
    obtain ⟨⟨evidence, hread⟩, hreads'⟩ := List.forall_mem_cons.mp hreads
    obtain ⟨hfirst, hstored'⟩ := List.forall_mem_cons.mp hstored
    obtain ⟨s, hs, rfl, hcharted⟩ := curveSeries_ok hread hfirst
    obtain ⟨out, snapshots, hout, hruns, hall, hbounds⟩ :=
      ih hreads' hstored' (evidenceBounds viewport bounds s.evidence) (series ++ [s])
    refine ⟨out, s :: snapshots, ?_, by rw [List.map_cons, hruns], List.forall_mem_cons.mpr ⟨hcharted, hall⟩, ?_⟩
    · simp only [curvesOf, hs, bind, Except.bind]
      rw [hout, List.append_assoc]
      rfl
    · intro values h
      refine (hbounds _ (h.evidence s)).congr fun n => ?_
      rw [or_assoc]
      apply or_congr_right
      simp [ShownValue]

/-- A reduction keeps the ends of a series that lies in the viewport. -/
theorem evidence_ends {run : Run} {evidence : AlignedMetricResult}
    (h : runEvidence accepts store selection viewport reduction run = .ok evidence)
    (hall : ∀ p ∈ fullSeries store selection run.runId, viewport.holds p.axisValue = true)
    {p : AlignedMetricPoint} (hp : p ∈ fullSeries store selection run.runId) :
    ∃ a ∈ evidence.points, ∃ b ∈ evidence.points, a.axisValue ≤ p.axisValue ∧ p.axisValue ≤ b.axisValue := by
  obtain ⟨result, hq, rfl⟩ := runEvidence_result h
  obtain ⟨-, -, rfl⟩ := queryAlignedMetric_ok_iff.mp hq
  obtain ⟨r, hr, rfl⟩ := List.mem_map.mp hp
  have hinside : r ∈ insideRows viewport (orderedRows (.project store.points)
      (runAxis store.runs selection.axis run.runId) (curveQuery selection viewport reduction run)) :=
    List.mem_filter.mpr ⟨hr, hall _ hp⟩
  cases hlimits : (curveQuery selection viewport reduction run).screenLimits with
  | none =>
    have hmem : r.point ∈ pointsOf (selectedRows viewport none (orderedRows (.project store.points)
        (runAxis store.runs selection.axis run.runId) (curveQuery selection viewport reduction run))) :=
      mem_pointsOf.mpr ⟨r, List.mem_append_left _ (List.mem_append_left _ hinside), rfl⟩
    exact ⟨_, hmem, _, hmem, le_refl _, le_refl _⟩
  | some limits =>
    have hshape := inside_keepsShape limits.1 limits.2 (List.ne_nil_of_mem hinside)
    obtain ⟨a, ha, -, hfirst⟩ := hshape.first
    obtain ⟨b, hb, -, hlast⟩ := hshape.last
    exact ⟨a.fromSortKey.point, mem_pointsOf.mpr ⟨_, mem_selected_inside ha, rfl⟩, b.fromSortKey.point,
      mem_pointsOf.mpr ⟨_, mem_selected_inside hb, rfl⟩, fst_le_of_toLex_le (hfirst r hinside),
      fst_le_of_toLex_le (hlast r hinside)⟩

theorem realRangeOf_ok {values : Int → Prop} {bounds : Option (Int × Int)} (h : Bounding values bounds)
    (hstored : ∀ n, values n → F64.I64 n) : ∃ realRange, realRangeOf bounds = .ok realRange := by
  cases bounds with
  | none => exact ⟨none, rfl⟩
  | some b =>
    obtain ⟨hlo, hhi, hall⟩ := h
    obtain ⟨range, hrange, -⟩ := brushableRange_ok (hstored _ hlo) (hstored _ hhi) (hall _ hlo).2
    exact ⟨some range, by simp [realRangeOf, attempt, hrange, Except.mapError, Except.map]⟩

end

def overviewViewport : AlignmentViewport := ⟨0, i64Max, by decide⟩

/-- The overview is the query of that viewport. -/
theorem queryOverview_eq (request : OverviewRequest) : queryOverview accepts store request =
    queryCurves accepts store request.selection overviewViewport (overviewBudget request.physicalWidth) := rfl

/-- Where the reads succeed, every drawable run is charted, and the overview's
bounds are those of the full series of the drawable runs. -/
theorem drawable_charted {runs : List Run} {pointBudget : UInt32} (hbudget : 0 < pointBudget)
    (hruns : store.getRuns selection.runIds = .ok runs)
    (hreads : ∀ run ∈ runs, ∃ evidence, runEvidence accepts store selection viewport
      (.screenBudget ⟨pointBudget, 1, hbudget, by decide⟩) run = .ok evidence)
    (hstored : ∀ run ∈ runs, ∀ p ∈ fullSeries store selection run.runId, F64.I64 p.axisValue) :
    ∃ bounds realRange series,
      curvesOf accepts store selection viewport (.screenBudget ⟨pointBudget, 1, hbudget, by decide⟩) runs none [] =
          .ok (bounds, series) ∧
        realRangeOf bounds = .ok realRange ∧
        queryCurves accepts store selection viewport pointBudget = .ok ⟨viewport, pointBudget, realRange, series⟩ ∧
        series.map CurveSeriesSnapshot.run = runs ∧
        (∀ s ∈ series, Charted accepts store selection viewport
          (.screenBudget ⟨pointBudget, 1, hbudget, by decide⟩) s) ∧
        Bounding (ShownValue viewport series) bounds ∧
        (viewport = overviewViewport → Bounding (DrawableValue store selection series) bounds) := by
  obtain ⟨bounds, series, hcurves, hmap, hcharted, hbounds⟩ := curvesOf_ok hreads hstored none []
  have hshown : Bounding (ShownValue viewport series) bounds :=
    (hbounds (fun _ => False) fun _ h => h).congr fun n => by simp
  have hseries : ∀ s ∈ series, ∀ p ∈ fullSeries store selection s.run.runId, F64.I64 p.axisValue := by
    intro s hs
    apply hstored
    rw [← hmap]
    exact List.mem_map_of_mem hs
  have hsub : ∀ n, ShownValue viewport series n → DrawableValue store selection series n := by
    rintro n ⟨s, hs, hd, p, hp, -, rfl⟩
    obtain ⟨q, hq, hsame⟩ := evidence_mem_series (hcharted s hs).evidence hp
    exact ⟨s, hs, hd, q, hq, hsame.axisValue.symm⟩
  obtain ⟨realRange, hrange⟩ := realRangeOf_ok hshown fun n hn => by
    obtain ⟨s, hs, -, p, hp, rfl⟩ := hsub n hn
    exact hseries s hs p hp
  refine ⟨bounds, realRange, series, hcurves, hrange, ?_, hmap, hcharted, hshown, ?_⟩
  · have hscreen : AlignmentReduction.newScreenBudget pointBudget 1 =
        .ok (.screenBudget ⟨pointBudget, 1, hbudget, by decide⟩) := dif_pos ⟨hbudget, by decide⟩
    simp only [queryCurves, hruns, hscreen, attempt, Except.mapError, bind, Except.bind]
    rw [hcurves]
    simp only [List.nil_append, hrange]
    rfl
  · rintro rfl
    refine hshown.widen hsub ?_
    rintro n ⟨s, hs, hd, p, hp, rfl⟩
    have hread := (hcharted s hs).evidence
    have hholds : ∀ q ∈ fullSeries store selection s.run.runId, overviewViewport.holds q.axisValue = true := by
      intro q hq
      have hlo := drawable_nonnegative hd hread q hq
      have hhi := (hseries s hs q hq).2
      exact Bool.and_eq_true_iff.mpr ⟨decide_eq_true hlo, decide_eq_true hhi⟩
    obtain ⟨a, ha, b, hb, hle, hge⟩ := evidence_ends hread hholds hp
    have hshown : ∀ q ∈ s.evidence.points, overviewViewport.holds q.axisValue = true := fun q hq => by
      obtain ⟨z, hz, hsame⟩ := evidence_mem_series hread hq
      exact hsame.axisValue ▸ hholds z hz
    exact ⟨_, _, ⟨s, hs, hd, a, ha, hshown a ha, rfl⟩, ⟨s, hs, hd, b, hb, hshown b hb, rfl⟩, hle, hge⟩

end

def chartedStore : Store where
  runs := [⟨"r", "p", "", .finished, 0, 0, some 20⟩]
  points := [⟨"r", "k", "k", 0, 0, ⟨5⟩, 10⟩, ⟨"r", "k", "k", 1, 10, ⟨7⟩, 11⟩]
  aggregates := []

def chartedSelection : CurveSelection := ⟨["r"], "k", .step⟩

theorem drawable_charted_store : ∃ bounds realRange series,
    queryCurves nearEpoch chartedStore chartedSelection overviewViewport 500 =
        .ok ⟨overviewViewport, 500, realRange, series⟩ ∧
      Bounding (DrawableValue chartedStore chartedSelection series) bounds := by
  have hruns : chartedStore.getRuns chartedSelection.runIds = .ok chartedStore.runs := rfl
  have hv : ∀ run ∈ chartedStore.runs, ∀ reduction,
      validateAlignmentIdentity (curveQuery chartedSelection overviewViewport reduction run) = .ok () := by
    intro run hrun reduction
    rw [List.mem_singleton.mp hrun]
    simp [validateAlignmentIdentity, curveQuery, chartedSelection, show blank "r" = false by decide,
      show blank "k" = false by decide]
  have hrep : ∀ row ∈ (MetricSource.project chartedStore.points).points, Representable nearEpoch row := by
    unfold Representable
    decide
  have hreads : ∀ run ∈ chartedStore.runs, ∃ evidence, runEvidence nearEpoch chartedStore chartedSelection
      overviewViewport (.screenBudget ⟨500, 1, by decide⟩) run = .ok evidence := by
    intro run hrun
    obtain ⟨result, hresult⟩ := queryAlignedMetric_ok (hv run hrun (.screenBudget ⟨500, 1, by decide⟩)) hrep
    refine ⟨alignedMetricResult result run.status, ?_⟩
    unfold runEvidence alignedEvidence
    rw [reader_step rfl, MetricReader.source, hresult]
    rfl
  have hstored : ∀ run ∈ chartedStore.runs, ∀ p ∈ fullSeries chartedStore chartedSelection run.runId,
      F64.I64 p.axisValue := by
    intro run _ p hp
    obtain ⟨r, hr, rfl⟩ := List.mem_map.mp hp
    have hrow : ∀ row ∈ chartedStore.points, -0x8000000000000000 ≤ row.step ∧ row.step ≤ i64Max := by decide
    have haxis := axisValue_of_mem hr
    change F64.I64 r.axisValue
    rw [haxis]
    exact hrow _ (orderedRows_source hr)
  have hbudget : (0 : UInt32) < 500 := by decide
  obtain ⟨bounds, realRange, series, -, -, hok, -, -, -, hbounds⟩ := drawable_charted nearEpoch chartedStore
    chartedSelection overviewViewport hbudget hruns hreads hstored
  exact ⟨bounds, realRange, series, hok, hbounds rfl⟩

end Pulseon
