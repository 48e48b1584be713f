import Pulseon.ReductionSound

/-!
# Series within the budget

The LTTB query counts before it reduces and the aligned screen query compares
the inside count with the budget, so neither touches a series that fits. The
plain screen query has no such comparison: it returns the series unreduced just
when every point is at an end of its bucket or an extreme of it.
-/

namespace Pulseon

/-! ## Buckets by position -/

def position (rows : List MetricPointRow) (row : MetricPointRow) : Nat :=
  (rows.filter fun y => decide (y.step < row.step)).length

/-- The rows that share a bucket with `row`, of `bucketCount` equal ranges of positions. -/
def bucketMates (bucketCount : Nat) (rows : List MetricPointRow) (row : MetricPointRow) : List MetricPointRow :=
  rows.filter fun y =>
    decide (position rows y * bucketCount / rows.length = position rows row * bucketCount / rows.length)

/-- Every row is the first or the last of its bucket, or the first of the least
or of the greatest values there. -/
def EndsAndExtremes (bucketCount : Nat) (rows : List MetricPointRow) : Prop :=
  ∀ row ∈ rows, (∀ y ∈ bucketMates bucketCount rows row, row.step ≤ y.step) ∨
    (∀ y ∈ bucketMates bucketCount rows row, y.step ≤ row.step) ∨
    (∀ y ∈ bucketMates bucketCount rows row,
      row.valueF64.key < y.valueF64.key ∨ row.valueF64.key = y.valueF64.key ∧ row.step ≤ y.step) ∨
    ∀ y ∈ bucketMates bucketCount rows row,
      y.valueF64.key < row.valueF64.key ∨ y.valueF64.key = row.valueF64.key ∧ row.step ≤ y.step

section
variable {bucketCount : Nat} {rows : List MetricPointRow} {row : MetricPointRow}

theorem ordinal_eq_position : ordinal (fun row => row.step) rows row = position rows row := by
  simp [ordinal, rowNumber, position, ordered, List.countP_eq_length_filter]

theorem mem_bucketMates {y : MetricPointRow} : y ∈ bucketMates bucketCount rows row ↔ y ∈ rows ∧
    bucket (fun row => row.step) bucketCount rows y = bucket (fun row => row.step) bucketCount rows row := by
  simp [bucketMates, bucket, ordinal_eq_position]

theorem ranked_first_iff {before : MetricPointRow → MetricPointRow → Bool} :
    rowNumber (bucket (fun row => row.step) bucketCount rows) before rows row = 1 ↔
      ∀ y ∈ bucketMates bucketCount rows row, before y row = false := by
  rw [rowNumber_eq_one]
  simp only [mem_bucketMates, and_imp]

/-- The rows a screen query keeps are all of them when each is at an end or extreme. -/
theorem selectFirst_eq_iff : selectFirst (bucket (fun row => row.step) bucketCount rows) screenOrders rows = rows ↔
    EndsAndExtremes bucketCount rows := by
  unfold selectFirst EndsAndExtremes
  rw [List.filter_eq_self]
  refine forall_congr' fun row => forall_congr' fun _ => ?_
  simp only [screenOrders, List.any_cons, List.any_nil, Bool.or_false, Bool.or_eq_true, beq_iff_eq,
    ranked_first_iff, ordered, decide_eq_false_iff_not, not_lt, Prod.Lex.toLex_le_toLex,
    Int.neg_lt_neg_iff, neg_inj]
  refine or_congr Iff.rfl (or_congr Iff.rfl (or_congr Iff.rfl ?_))
  refine forall_congr' fun y => forall_congr' fun _ => ?_
  rw [eq_comm]

end

/-! ## Plain queries -/

section
variable {accepts : Int → Bool} {extension : LttbExtension} {source : MetricSource} {query : MetricQuery}

theorem full_not_downsampled {full : MetricQueryResult}
    (h : queryMetric accepts extension source { query with reduction := .full } = .ok full) :
    full.downsampled = false := by
  obtain ⟨-, -, rfl⟩ := (queryMetric_full_ok_iff rfl).mp h
  simp [MetricQueryResult.downsampled]

theorem lttb_fitting {maxPoints : Nat} (h : countEffective source query ≤ maxPoints) :
    queryMetric accepts extension source { query with reduction := .lttb maxPoints } =
      queryMetric accepts extension source { query with reduction := .full } := by
  have hc : countEffective source { query with reduction := .lttb maxPoints } ≤ maxPoints := h
  simp only [queryMetric, hc, ite_true]
  rfl

theorem screen_unreduced_iff (query : MetricQuery) {full : MetricQueryResult} {pixelWidth : UInt32}
    {pointsPerPixel : UInt16}
    (hfull : queryMetric accepts extension source { query with reduction := .full } = .ok full) :
    (∃ result, queryMetric accepts extension source
          { query with reduction := .screenBudget pixelWidth pointsPerPixel } = .ok result ∧
        List.Forall₂ MetricPoint.Same result.points full.points ∧ result.downsampled = false) ↔
      EndsAndExtremes (max (screenPoints pixelWidth pointsPerPixel / extremaPerBucket) 1)
        (source.effectiveRows query) := by
  rw [screen_of_full query hfull]
  obtain ⟨-, -, rfl⟩ := (queryMetric_full_ok_iff rfl).mp hfull
  rw [← selectFirst_eq_iff]
  change _ ↔ source.screenKept query _ = source.effectiveRows query
  constructor
  · rintro ⟨result, hr, hpoints, -⟩
    cases hr
    have hlen := hpoints.length_eq
    simp only [List.length_map, length_orderBy] at hlen
    exact List.filter_eq_self.mpr (List.length_filter_eq_length_iff.mp hlen)
  · intro h
    refine ⟨_, rfl, ?_, ?_⟩
    · rw [h]
      exact forall₂_map fromSortKey_same _
    simp only [MetricQueryResult.downsampled, h, List.length_map, length_orderBy]
    exact decide_eq_false (Nat.lt_irrefl _)

end

/-! ## Aligned queries -/

section
variable {accepts : Int → Bool} {reader : MetricReader} {query : AlignmentQuery}

theorem aligned_fitting {source : MetricSource} {axis : AxisExpression} {full : AlignmentQueryResult}
    {budget : AlignmentScreenBudget}
    (hfull : queryAlignedMetric accepts source { query with reduction := .full } axis = .ok full)
    (hfit : (full.points.filter query.viewport.covers).length ≤
      screenPoints budget.pixelWidth budget.pointsPerPixel) :
    ∃ result, queryAlignedMetric accepts source { query with reduction := .screenBudget budget } axis = .ok result ∧
      List.Forall₂ AlignedMetricPoint.Same result.points full.points ∧ result.downsampled = false := by
  refine ⟨_, aligned_of_full hfull _, ?_⟩
  obtain ⟨-, -, rfl⟩ := queryAlignedMetric_ok_iff.mp hfull
  have hn := orderedRows_steps source axis query
  have hcovers : ∀ r : AlignedRow, query.viewport.covers r.point = query.viewport.contains r := fun _ => rfl
  have hinside : (insideRows query.viewport (orderedRows source axis query)).length ≤
      screenPoints budget.pixelWidth budget.pointsPerPixel := by
    rw [← visible_inside, ← length_filter_pointsOf hcovers]
    exact hfit
  -- every visible row is kept
  have hkept : ∀ rows : List AlignedRow, rows.filter (query.viewport.keeps
      (AlignmentQuery.screenLimits { query with reduction := .screenBudget budget })
        (orderedRows source axis query)) =
        rows := fun rows => filter_all fun r _ => by
    simp [AlignmentViewport.keeps, AlignmentQuery.screenLimits, AlignmentReduction.maxPoints, insideKept, hinside]
  have hpoints : pointsOf (selectedRows query.viewport
      (AlignmentQuery.screenLimits { query with reduction := .screenBudget budget })
        (orderedRows source axis query)) =
        _ := pointsOf_selected hn
  rw [hkept] at hpoints
  constructor
  · show List.Forall₂ _ (pointsOf _) _
    rw [hpoints]
    exact forall₂_map (returned_same _) _
  · show decide ((pointsOf _).length < (visibleSource _ _).length) = false
    rw [hpoints, List.length_map, length_orderBy]
    exact decide_eq_false (Nat.lt_irrefl _)

theorem reader_fitting {full : AlignmentQueryResult} {budget : AlignmentScreenBudget}
    (hfull : reader.queryAlignedMetric accepts { query with reduction := .full } = .ok full)
    (hfit : (full.points.filter query.viewport.covers).length ≤
      screenPoints budget.pixelWidth budget.pointsPerPixel) :
    ∃ result, reader.queryAlignedMetric accepts { query with reduction := .screenBudget budget } = .ok result ∧
      List.Forall₂ AlignedMetricPoint.Same result.points full.points ∧ result.downsampled = false := by
  rcases reader_axis accepts reader query with hmissing | ⟨e, herr⟩ | ⟨axis, haxis⟩
  · rw [hmissing] at hfull ⊢
    cases hfull
    exact ⟨_, rfl, .nil, rfl⟩
  · rw [herr] at hfull; cases hfull
  · rw [haxis] at hfull ⊢
    exact aligned_fitting hfull hfit

end

/-! ## Series that fit -/

/-- A series that fits its budget is returned unreduced by the LTTB query and
by the aligned screen query, and by the plain screen query just when each of
its points is at an end or an extreme of its bucket. A screen query's points are
the same but for the bits of values that sort alike. -/
theorem fitting_series_unreduced (accepts : Int → Bool) (extension : LttbExtension) :
    (∀ (source : MetricSource) (query : MetricQuery) (maxPoints : Nat) (full : MetricQueryResult),
      queryMetric accepts extension source { query with reduction := .full } = .ok full →
        countEffective source query ≤ maxPoints →
          ∃ result, queryMetric accepts extension source { query with reduction := .lttb maxPoints } = .ok result ∧
            result.points = full.points ∧ result.downsampled = false) ∧
    (∀ (reader : MetricReader) (query : AlignmentQuery) (budget : AlignmentScreenBudget)
      (full : AlignmentQueryResult),
      reader.queryAlignedMetric accepts { query with reduction := .full } = .ok full →
        (full.points.filter query.viewport.covers).length ≤ screenPoints budget.pixelWidth budget.pointsPerPixel →
          ∃ result,
            reader.queryAlignedMetric accepts { query with reduction := .screenBudget budget } = .ok result ∧
            List.Forall₂ AlignedMetricPoint.Same result.points full.points ∧ result.downsampled = false) ∧
    ∀ (source : MetricSource) (query : MetricQuery) (pixelWidth : UInt32) (pointsPerPixel : UInt16)
      (full : MetricQueryResult),
      queryMetric accepts extension source { query with reduction := .full } = .ok full →
        countEffective source query ≤ screenPoints pixelWidth pointsPerPixel →
          ((∃ result, queryMetric accepts extension source
                { query with reduction := .screenBudget pixelWidth pointsPerPixel } = .ok result ∧
              List.Forall₂ MetricPoint.Same result.points full.points ∧ result.downsampled = false) ↔
            EndsAndExtremes (max (screenPoints pixelWidth pointsPerPixel / extremaPerBucket) 1)
              (source.effectiveRows query)) := by
  refine ⟨?_, ?_, ?_⟩
  · intro source query maxPoints full hfull hfit
    exact ⟨full, (lttb_fitting hfit).trans hfull, rfl, full_not_downsampled hfull⟩
  · intro reader query budget full hfull hfit
    exact reader_fitting hfull hfit
  · intro source query pixelWidth pointsPerPixel full hfull _
    exact screen_unreduced_iff query hfull

theorem fitting_series_unreduced_plotted :
    (∃ full lttb,
      queryMetric nearEpoch unavailableLttb (.project plottedPoints) ⟨"r", "k", none, none, .full⟩ = .ok full ∧
      queryMetric nearEpoch unavailableLttb (.project plottedPoints) ⟨"r", "k", none, none, .lttb 8⟩ = .ok lttb ∧
        lttb.points = full.points) ∧
      (∃ full screen,
        (MetricReader.project [] plottedPoints).queryAlignedMetric nearEpoch (plottedQuery .full) = .ok full ∧
          (MetricReader.project [] plottedPoints).queryAlignedMetric nearEpoch
            (plottedQuery (.screenBudget ⟨6, 1, by decide⟩)) = .ok screen ∧
          List.Forall₂ AlignedMetricPoint.Same screen.points full.points) ∧
      ∃ full screen,
        queryMetric nearEpoch unavailableLttb (.project plottedPoints) ⟨"r", "k", none, none, .full⟩ = .ok full ∧
        queryMetric nearEpoch unavailableLttb (.project plottedPoints) ⟨"r", "k", none, none, .screenBudget 16 1⟩ =
          .ok screen ∧ List.Forall₂ MetricPoint.Same screen.points full.points := by
  obtain ⟨hlttb, haligned, hscreen⟩ := fitting_series_unreduced nearEpoch unavailableLttb
  have hfull := queryMetric_full_ok nearEpoch unavailableLttb (.project plottedPoints) ⟨"r", "k", none, none, .full⟩
    (by unfold MetricQuery.Identified; decide) rfl plotted_representable
  refine ⟨?_, ?_, ?_⟩
  · obtain ⟨lttb, h, hp, -⟩ := hlttb (.project plottedPoints) ⟨"r", "k", none, none, .full⟩ 8 _ hfull (by decide)
    exact ⟨_, lttb, hfull, h, hp⟩
  · obtain ⟨full, hfull⟩ := plotted_ok .full
    obtain ⟨screen, h, hp, -⟩ := haligned _ (plottedQuery .full) ⟨6, 1, by decide⟩ full hfull
      (by rw [plotted_inside hfull]; decide)
    exact ⟨full, screen, hfull, h, hp⟩
  · obtain ⟨screen, h, hp, -⟩ := (hscreen (.project plottedPoints) ⟨"r", "k", none, none, .full⟩ 16 1 _ hfull
      (by decide)).mpr (by unfold EndsAndExtremes; decide)
    exact ⟨_, screen, hfull, h, hp⟩

/-- A rising series of four points, with a budget of four in one bucket. -/
def risingPoints : List MetricPointRow :=
  [⟨"r", "k", "k", 0, 0, ⟨0⟩, 10⟩, ⟨"r", "k", "k", 1, 10, ⟨1⟩, 11⟩, ⟨"r", "k", "k", 2, 20, ⟨2⟩, 12⟩,
    ⟨"r", "k", "k", 3, 30, ⟨3⟩, 13⟩]

theorem rising_series_reduced : ∃ full,
    queryMetric nearEpoch unavailableLttb (.project risingPoints) ⟨"r", "k", none, none, .full⟩ = .ok full ∧
      countEffective (.project risingPoints) ⟨"r", "k", none, none, .screenBudget 4 1⟩ ≤ screenPoints 4 1 ∧
      ¬ ∃ result, queryMetric nearEpoch unavailableLttb (.project risingPoints)
          ⟨"r", "k", none, none, .screenBudget 4 1⟩ = .ok result ∧
        List.Forall₂ MetricPoint.Same result.points full.points ∧ result.downsampled = false := by
  have hrep : ∀ row ∈ risingPoints, Representable nearEpoch row := by unfold Representable; decide
  have hfull := queryMetric_full_ok nearEpoch unavailableLttb (.project risingPoints) ⟨"r", "k", none, none, .full⟩
    (by unfold MetricQuery.Identified; decide) rfl hrep
  have hends : ¬ EndsAndExtremes (max (screenPoints 4 1 / extremaPerBucket) 1)
      ((MetricSource.project risingPoints).effectiveRows ⟨"r", "k", none, none, .full⟩) := by
    unfold EndsAndExtremes
    decide
  exact ⟨_, hfull, by decide, fun h => hends ((screen_unreduced_iff ⟨"r", "k", none, none, .full⟩ hfull).mp h)⟩

end Pulseon
