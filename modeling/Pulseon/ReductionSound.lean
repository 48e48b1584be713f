import Pulseon.AlignmentSound

/-!
# What reduction keeps

A screen query, plain or aligned, returns a subsequence of the full query with
its extremes, within the budget, but for the bits of values that sort alike. An
aligned result's evidence is a function of whether it has a point, whether it
has one that is not finite, and the reasons of the axis; no reduction changes
these.
-/

namespace Pulseon

section
variable {accepts : Int → Bool} {reader : MetricReader} {query : AlignmentQuery}

theorem reader_step (h : query.axis = .step) :
    reader.queryAlignedMetric accepts query = queryAlignedMetric accepts reader.source query .step := by
  unfold MetricReader.queryAlignedMetric queryAlignedMetric
  rw [h]
  cases validateAlignmentIdentity query <;> rfl

theorem reader_elapsed {runs : List Run} {points : List MetricPointRow} (h : query.axis = .elapsedTime)
    {start : Int} (hs : runStartMillis runs query.runId = .ok start) :
    (MetricReader.project runs points).queryAlignedMetric accepts query =
      queryAlignedMetric accepts (.project points) query (.elapsed start) := by
  unfold MetricReader.queryAlignedMetric queryAlignedMetric
  rw [h]
  simp only [hs]
  cases validateAlignmentIdentity query <;> rfl

/-- A reader finds the axis of a query, or fails to, whatever the reduction. -/
theorem reader_axis (accepts : Int → Bool) (reader : MetricReader) (query : AlignmentQuery) :
    (∀ reduction, reader.queryAlignedMetric accepts { query with reduction := reduction } =
        .ok ⟨[], 0, [.missingRunStart]⟩) ∨
      (∃ e, ∀ reduction, reader.queryAlignedMetric accepts { query with reduction := reduction } = .error e) ∨
      ∃ axis, ∀ reduction, reader.queryAlignedMetric accepts { query with reduction := reduction } =
        queryAlignedMetric accepts reader.source { query with reduction := reduction } axis := by
  obtain ⟨runId, metricKey, axis, viewport, old⟩ := query
  by_cases hb : (blank runId || blank metricKey) = true
  · refine Or.inr (Or.inl ⟨.invalidIdentity, fun reduction => ?_⟩)
    simp [MetricReader.queryAlignedMetric, validateAlignmentIdentity, hb, bind, Except.bind]
  · have hv : ∀ reduction, validateAlignmentIdentity ⟨runId, metricKey, axis, viewport, reduction⟩ = .ok () := by
      intro reduction
      simp [validateAlignmentIdentity, hb]
    cases axis with
    | step => exact Or.inr (Or.inr ⟨.step, fun reduction => reader_step rfl⟩)
    | elapsedTime =>
      cases reader with
      | parquet files =>
        refine Or.inl fun reduction => ?_
        simp only [MetricReader.queryAlignedMetric, hv, bind, Except.bind, pure, Except.pure]
      | project runs points =>
        cases hr : runStartMillis runs runId with
        | error e =>
          refine Or.inr (Or.inl ⟨e, fun reduction => ?_⟩)
          simp only [MetricReader.queryAlignedMetric, hv, bind, Except.bind, hr]
        | ok start => exact Or.inr (Or.inr ⟨.elapsed start, fun reduction => reader_elapsed rfl hr⟩)

theorem reader_full_ok {full : AlignmentQueryResult}
    (h : reader.queryAlignedMetric accepts { query with reduction := .full } = .ok full)
    (reduction : AlignmentReduction) :
    ∃ reduced, reader.queryAlignedMetric accepts { query with reduction := reduction } = .ok reduced := by
  rcases reader_axis accepts reader query with hmissing | ⟨e, herr⟩ | ⟨axis, haxis⟩
  · exact ⟨_, hmissing reduction⟩
  · rw [herr] at h; cases h
  · rw [haxis] at h
    exact ⟨_, (haxis reduction).trans (aligned_of_full h reduction)⟩

theorem reader_screen_sound {full screen : AlignmentQueryResult} {budget : AlignmentScreenBudget}
    (hfull : reader.queryAlignedMetric accepts { query with reduction := .full } = .ok full)
    (hscreen : reader.queryAlignedMetric accepts { query with reduction := .screenBudget budget } = .ok screen) :
    AlignedReduction query.viewport (screenPoints budget.pixelWidth budget.pointsPerPixel) full screen := by
  rcases reader_axis accepts reader query with hmissing | ⟨e, herr⟩ | ⟨axis, haxis⟩
  · rw [hmissing] at hfull hscreen
    cases hfull
    cases hscreen
    constructor <;> simp [List.SublistForall₂.nil]
  · rw [herr] at hfull; cases hfull
  · rw [haxis] at hfull hscreen
    exact aligned_screen_sound hfull hscreen

end

/-- Both screen queries return, where the full query does, a subsequence of its
result that keeps its shape within the budget. -/
theorem screen_reduction_sound (accepts : Int → Bool) (extension : LttbExtension) :
    (∀ (source : MetricSource) (query : MetricQuery) (pixelWidth : UInt32) (pointsPerPixel : UInt16)
      (full : MetricQueryResult),
      queryMetric accepts extension source { query with reduction := .full } = .ok full →
        ∃ screen, queryMetric accepts extension source
              { query with reduction := .screenBudget pixelWidth pointsPerPixel } = .ok screen ∧
          List.SublistForall₂ MetricPoint.Same screen.points full.points ∧
          screen.points.Pairwise (fun p q => p.step < q.step) ∧
          screen.points.length ≤ screenPoints pixelWidth pointsPerPixel ∧
          (full.points ≠ [] →
            KeepsShape MetricPoint.Same MetricPoint.step MetricPoint.valueF64 full.points screen.points) ∧
          screen.sourceRowCount = full.sourceRowCount) ∧
    ∀ (reader : MetricReader) (query : AlignmentQuery) (budget : AlignmentScreenBudget)
      (full : AlignmentQueryResult),
      reader.queryAlignedMetric accepts { query with reduction := .full } = .ok full →
        ∃ screen, reader.queryAlignedMetric accepts { query with reduction := .screenBudget budget } = .ok screen ∧
          AlignedReduction query.viewport (screenPoints budget.pixelWidth budget.pointsPerPixel) full screen := by
  constructor
  · intro source query pixelWidth pointsPerPixel full hfull
    have hscreen := screen_of_full query hfull pixelWidth pointsPerPixel
    exact ⟨_, hscreen, screen_metric_sound hfull hscreen⟩
  · intro reader query budget full hfull
    obtain ⟨screen, hscreen⟩ := reader_full_ok hfull (.screenBudget budget)
    exact ⟨screen, hscreen, reader_screen_sound hfull hscreen⟩

/-- The full query shows the effective rows whose axis value is in the viewport. -/
theorem length_full_inside {accepts : Int → Bool} {source : MetricSource} {axis : AxisExpression}
    {query : AlignmentQuery} {full : AlignmentQueryResult}
    (h : queryAlignedMetric accepts source { query with reduction := .full } axis = .ok full) :
    (full.points.filter query.viewport.covers).length =
      (source.effective (effectiveClause query.runId query.metricKey none none)).countP fun row =>
        decide (query.viewport.start ≤ axis.value row) && decide (axis.value row ≤ query.viewport.stop) := by
  obtain ⟨-, -, rfl⟩ := queryAlignedMetric_ok_iff.mp h
  have hlen := length_filter_pointsOf (p := query.viewport.covers) (q := query.viewport.contains) (fun _ => rfl)
    (visibleSource query.viewport (orderedRows source axis query))
  have hcount : ((orderedRows source axis query).map AlignedRow.axisValue).countP (fun x =>
      decide (query.viewport.start ≤ x) && decide (x ≤ query.viewport.stop)) =
        (insideRows query.viewport (orderedRows source axis query)).length := by
    rw [List.countP_map, List.countP_eq_length_filter]
    rfl
  rw [visible_inside, ← hcount, orderedRows, lagged_axisValues, List.countP_map] at hlen
  exact hlen.trans ((orderBy_perm _ _).countP_eq _)

/-- The timestamps of the tests: some 140,000 years around the epoch. -/
def nearEpoch (millis : Int) : Bool := decide (millis.natAbs < 2 ^ 52)

/-- Eight effective points of a run, one rewritten, with a NaN and a negative zero among them. -/
def plottedPoints : List MetricPointRow :=
  [⟨"r", "k", "k", 0, 0, ⟨5⟩, 10⟩, ⟨"r", "k", "k", 1, 10, ⟨7⟩, 11⟩, ⟨"r", "k", "k", 2, 20, ⟨6⟩, 12⟩,
    ⟨"r", "k", "k", 3, 30, ⟨0x7ff8000000000001⟩, 13⟩, ⟨"r", "k", "k", 4, 40, ⟨0x8000000000000000⟩, 14⟩,
    ⟨"r", "k", "k", 5, 50, ⟨4⟩, 15⟩, ⟨"r", "k", "k", 6, 60, ⟨2⟩, 16⟩, ⟨"r", "k", "k", 7, 70, ⟨9⟩, 17⟩,
    ⟨"r", "k", "k", 2, 20, ⟨3⟩, 18⟩]

theorem plotted_representable : ∀ row ∈ plottedPoints, Representable nearEpoch row := by
  unfold Representable
  decide

def plottedQuery (reduction : AlignmentReduction) : AlignmentQuery :=
  ⟨"r", "k", .step, ⟨1, 6, by decide⟩, reduction⟩

theorem plotted_ok (reduction : AlignmentReduction) : ∃ result,
    (MetricReader.project [] plottedPoints).queryAlignedMetric nearEpoch (plottedQuery reduction) = .ok result := by
  have hv : validateAlignmentIdentity (plottedQuery reduction) = .ok () := by
    simp [validateAlignmentIdentity, plottedQuery, show blank "r" = false by decide, show blank "k" = false by
      decide]
  rw [reader_step rfl]
  exact queryAlignedMetric_ok hv plotted_representable

theorem plotted_inside {full : AlignmentQueryResult}
    (h : (MetricReader.project [] plottedPoints).queryAlignedMetric nearEpoch (plottedQuery .full) = .ok full) :
    (full.points.filter (plottedQuery .full).viewport.covers).length = 6 := by
  rw [reader_step rfl] at h
  rw [length_full_inside h]
  decide

/-- Both queries drop points of the series. -/
theorem screen_reduction_sound_plotted :
    (∃ full screen,
      queryMetric nearEpoch unavailableLttb (.project plottedPoints) ⟨"r", "k", none, none, .full⟩ = .ok full ∧
      queryMetric nearEpoch unavailableLttb (.project plottedPoints) ⟨"r", "k", none, none, .screenBudget 1 4⟩ =
        .ok screen ∧
        List.SublistForall₂ MetricPoint.Same screen.points full.points ∧ screen.points.length ≤ 4 ∧
        full.points.length = 8) ∧
      ∃ full screen,
        (MetricReader.project [] plottedPoints).queryAlignedMetric nearEpoch (plottedQuery .full) = .ok full ∧
          (MetricReader.project [] plottedPoints).queryAlignedMetric nearEpoch
            (plottedQuery (.screenBudget ⟨1, 4, by decide⟩)) = .ok screen ∧
          AlignedReduction (plottedQuery .full).viewport 4 full screen ∧
          (full.points.filter (plottedQuery .full).viewport.covers).length = 6 := by
  obtain ⟨hplain, haligned⟩ := screen_reduction_sound nearEpoch unavailableLttb
  constructor
  · have hfull :=
      queryMetric_full_ok nearEpoch unavailableLttb (.project plottedPoints) ⟨"r", "k", none, none, .full⟩
      (by unfold MetricQuery.Identified; decide) rfl plotted_representable
    obtain ⟨screen, hscreen, hsub, -, hlen, -⟩ :=
      hplain (.project plottedPoints) ⟨"r", "k", none, none, .full⟩ 1 4 _ hfull
    refine ⟨_, screen, hfull, hscreen, hsub, hlen, ?_⟩
    rw [List.length_map, length_orderBy]
    decide
  · obtain ⟨full, hfull⟩ := plotted_ok .full
    obtain ⟨screen, hscreen, hred⟩ := haligned _ (plottedQuery .full) ⟨1, 4, by decide⟩ full hfull
    exact ⟨full, screen, hfull, hscreen, hred, plotted_inside hfull⟩

/-! ## Evidence -/

def nonFinite (points : List AlignedMetricPoint) : Bool := points.any fun p => !p.point.valueF64.isFinite

section
variable {v : AlignmentViewport} {rows : List AlignedRow}

theorem nonFinite_pointsOf (l : List AlignedRow) : nonFinite (pointsOf l) = true ↔
    ∃ r ∈ l, r.row.valueF64.isFinite = false := by
  simp [nonFinite, pointsOf, AlignedRow.point, MetricPointRow.point]

theorem mem_selected_inside {bucketCount maxPoints : Nat} {r : AlignedRow}
    (h : r ∈ insideSelected bucketCount maxPoints (insideRows v rows)) :
    r.fromSortKey ∈ selectedRows v (some (bucketCount, maxPoints)) rows := by
  simp only [selectedRows, List.mem_append]
  exact Or.inl (Or.inl (List.mem_map_of_mem h))

/-- The extremes of the inside rows are selected, and one of them is not finite
when any is. -/
theorem nonFinite_selected (screenLimits : Option (Nat × Nat)) :
    nonFinite (pointsOf (selectedRows v screenLimits rows)) = nonFinite (pointsOf (visibleSource v rows)) := by
  rw [Bool.eq_iff_iff, nonFinite_pointsOf, nonFinite_pointsOf]
  constructor
  · rintro ⟨r, hr, hx⟩
    obtain ⟨z, hz, -, rfl⟩ := mem_selectedRows hr
    exact ⟨z, hz, (F64.isFinite_congr (returned_key screenLimits z)).symm.trans hx⟩
  rintro ⟨r, hr, hx⟩
  cases screenLimits with
  | none => exact ⟨r, hr, hx⟩
  | some limits =>
    obtain ⟨bucketCount, maxPoints⟩ := limits
    -- the key of a selected row is that of the stored one
    have hselected : ∀ x ∈ insideSelected bucketCount maxPoints (insideRows v rows),
      x.row.valueF64.isFinite = false →
        ∃ y ∈ selectedRows v (some (bucketCount, maxPoints)) rows, y.row.valueF64.isFinite = false := fun x hk hx =>
      ⟨_, mem_selected_inside hk, (F64.isFinite_congr x.row.valueF64.key_fromSortKey).trans hx⟩
    simp only [visibleSource, List.mem_append] at hr
    rcases hr with (hr | hr) | hr
    · have hshape := inside_keepsShape bucketCount maxPoints (List.ne_nil_of_mem hr)
      rcases (F64.nonFinite_iff _).mp hx with hlow | hhigh
      · obtain ⟨x, hk, -, hle⟩ := hshape.least
        exact hselected x hk ((F64.nonFinite_iff _).mpr (Or.inl (le_trans (hle r hr) hlow)))
      · obtain ⟨x, hk, -, hle⟩ := hshape.greatest
        exact hselected x hk ((F64.nonFinite_iff _).mpr (Or.inr (le_trans hhigh (hle r hr))))
    · exact ⟨r, by simp [selectedRows, hr], hx⟩
    · exact ⟨r, by simp [selectedRows, hr], hx⟩

theorem selected_eq_nil (screenLimits : Option (Nat × Nat)) :
    selectedRows v screenLimits rows = [] ↔ visibleSource v rows = [] := by
  cases screenLimits with
  | none => exact Iff.rfl
  | some limits =>
    obtain ⟨bucketCount, maxPoints⟩ := limits
    have hi : insideSelected bucketCount maxPoints (insideRows v rows) = [] ↔ insideRows v rows = [] := by
      constructor
      · intro h
        by_contra hne
        obtain ⟨x, hx, -⟩ := (inside_keepsShape bucketCount maxPoints hne).first
        rw [h] at hx; cases hx
      · intro h
        simp [insideSelected, h]
    simp only [selectedRows, visibleSource, List.append_eq_nil_iff, List.map_eq_nil_iff, hi]

end

theorem evidence_congr {a b : AlignmentQueryResult} (hr : a.reasons = b.reasons)
    (hn : nonFinite a.points = nonFinite b.points) (he : a.points.isEmpty = b.points.isEmpty)
    (runStatus : RunStatus) :
    (alignedMetricResult a runStatus).completeness = (alignedMetricResult b runStatus).completeness ∧
      (alignedMetricResult a runStatus).reasons = (alignedMetricResult b runStatus).reasons := by
  unfold nonFinite at hn
  simp only [alignedMetricResult, hr, hn, he, and_self]

theorem aligned_evidence_eq {accepts : Int → Bool} {source : MetricSource} {axis : AxisExpression}
    {query : AlignmentQuery} {r₁ r₂ : AlignmentReduction} {a b : AlignmentQueryResult}
    (ha : queryAlignedMetric accepts source { query with reduction := r₁ } axis = .ok a)
    (hb : queryAlignedMetric accepts source { query with reduction := r₂ } axis = .ok b) (runStatus : RunStatus) :
    (alignedMetricResult a runStatus).completeness = (alignedMetricResult b runStatus).completeness ∧
      (alignedMetricResult a runStatus).reasons = (alignedMetricResult b runStatus).reasons := by
  obtain ⟨-, -, rfl⟩ := queryAlignedMetric_ok_iff.mp ha
  obtain ⟨-, -, rfl⟩ := queryAlignedMetric_ok_iff.mp hb
  apply evidence_congr
  · rfl
  · simp only [nonFinite_selected]
    rfl
  · rw [Bool.eq_iff_iff]
    simp only [pointsOf, List.isEmpty_iff, List.map_eq_nil_iff, orderBy_eq_nil, selected_eq_nil]
    rfl

/-- Any two reductions of a query give the same evidence. -/
theorem evidence_independent_of_reduction {accepts : Int → Bool} {reader : MetricReader} (query : AlignmentQuery)
    {runStatus : RunStatus} {r₁ r₂ : AlignmentReduction} {a b : AlignedMetricResult}
    (ha : alignedEvidence accepts reader { query with reduction := r₁ } runStatus = .ok a)
    (hb : alignedEvidence accepts reader { query with reduction := r₂ } runStatus = .ok b) :
    a.completeness = b.completeness ∧ a.reasons = b.reasons := by
  have hres : ∀ {r : AlignmentReduction} {c : AlignedMetricResult},
      alignedEvidence accepts reader { query with reduction := r } runStatus = .ok c →
        ∃ result, reader.queryAlignedMetric accepts { query with reduction := r } = .ok result ∧
          c = alignedMetricResult result runStatus := by
    intro r c h
    unfold alignedEvidence at h
    cases hq : reader.queryAlignedMetric accepts { query with reduction := r } with
    | error e => rw [hq] at h; cases h
    | ok result => rw [hq] at h; cases h; exact ⟨result, rfl, rfl⟩
  obtain ⟨x, hx, rfl⟩ := hres ha
  obtain ⟨y, hy, rfl⟩ := hres hb
  rcases reader_axis accepts reader query with hmissing | ⟨e, herr⟩ | ⟨axis, haxis⟩
  · rw [hmissing] at hx hy
    cases hx
    cases hy
    exact ⟨rfl, rfl⟩
  · rw [herr] at hx; cases hx
  · rw [haxis] at hx hy
    exact aligned_evidence_eq hx hy runStatus

theorem plotted_evidence {reduction : AlignmentReduction} {result : AlignmentQueryResult}
    (h : (MetricReader.project [] plottedPoints).queryAlignedMetric nearEpoch (plottedQuery reduction) =
      .ok result) :
    alignedEvidence nearEpoch (.project [] plottedPoints) (plottedQuery reduction) .failed =
      .ok (alignedMetricResult result .failed) := by
  unfold alignedEvidence
  rw [h]; rfl

/-- The evidence of the six points in the viewport and that of at most four of them. -/
theorem evidence_independent_of_reduction_plotted : ∃ a b,
    alignedEvidence nearEpoch (.project [] plottedPoints) (plottedQuery .full) .failed = .ok a ∧
      alignedEvidence nearEpoch (.project [] plottedPoints)
        (plottedQuery (.screenBudget ⟨1, 1, by decide⟩)) .failed = .ok b ∧
      (a.points.filter (plottedQuery .full).viewport.covers).length = 6 ∧
      (b.points.filter (plottedQuery .full).viewport.covers).length ≤ 4 ∧
      a.completeness = b.completeness ∧ a.reasons = b.reasons := by
  obtain ⟨full, hfull⟩ := plotted_ok .full
  obtain ⟨screen, hscreen⟩ := plotted_ok (.screenBudget ⟨1, 1, by decide⟩)
  have ha := plotted_evidence hfull
  have hb := plotted_evidence hscreen
  have hred := @reader_screen_sound nearEpoch (.project [] plottedPoints) (plottedQuery .full) full screen
    ⟨1, 1, by decide⟩ hfull hscreen
  exact ⟨_, _, ha, hb, plotted_inside hfull, hred.inside, evidence_independent_of_reduction
    (plottedQuery .full) ha hb⟩

end Pulseon
