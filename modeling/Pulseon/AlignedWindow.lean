import Pulseon.ReductionSound

/-!
# The window of a full aligned query

The rows of a series are in step order. A full query returns the inside ones
and the two nearest neighbours in axis order; where the axis never decreases
these are consecutive rows of the series.
-/

namespace Pulseon

/-! ## Axis order -/

theorem lagged_increasing (axis : AxisExpression) (previous : Option Int) (rows : List MetricPointRow) :
    hasDecreasingAxis (lagged axis previous rows) = false ↔
      (previous.toList ++ (lagged axis previous rows).map AlignedRow.axisValue).IsChain fun x y => x ≤ y := by
  induction rows generalizing previous with
  | nil => cases previous <;> simp [lagged, hasDecreasingAxis]
  | cons row rows ih =>
    have ih := ih (some (axis.value row))
    simp only [Option.toList_some, List.cons_append, List.nil_append] at ih
    simp only [lagged, hasDecreasingAxis, List.any_cons, Bool.or_eq_false_iff, List.map_cons]
    unfold hasDecreasingAxis at ih
    rw [ih]
    cases previous with
    | none => simp
    | some p => simp

theorem lagged_axisValue {axis : AxisExpression} {previous : Option Int} {rows : List MetricPointRow}
    {r : AlignedRow} (h : r ∈ lagged axis previous rows) : r.axisValue = axis.value r.row := by
  induction rows generalizing previous with
  | nil => cases h
  | cons row rows ih =>
    rcases List.mem_cons.mp h with rfl | h
    · rfl
    · exact ih h

section
variable {source : MetricSource} {axis : AxisExpression} {query : AlignmentQuery}

theorem axisValue_of_mem {r : AlignedRow} (h : r ∈ orderedRows source axis query) :
    r.axisValue = axis.value r.row :=
  lagged_axisValue h

theorem orderedRows_increasing : hasDecreasingAxis (orderedRows source axis query) = false ↔
    (orderedRows source axis query).Pairwise fun r s => r.axisValue ≤ s.axisValue := by
  unfold orderedRows
  rw [lagged_increasing, Option.toList_none, List.nil_append, List.isChain_iff_pairwise, List.pairwise_map]

theorem orderedRows_strict : (orderedRows source axis query).Pairwise fun r s => r.row.step < s.row.step := by
  have hstrict := orderBy_strict (fun row : MetricPointRow => row.step)
    (effectiveRows_steps source ⟨query.runId, query.metricKey, none, none, .full⟩)
  have hmap : ((orderedRows source axis query).map AlignedRow.row).Pairwise fun x y => x.step < y.step := by
    rw [orderedRows, lagged_rows]
    exact hstrict
  rwa [List.pairwise_map] at hmap

end

/-! ## Neighbours -/

section
variable {β κ : Type*} [LinearOrder κ] {key : β → κ} {l : List β}

theorem firstRanked_ne_nil (key : β → κ) (h : l ≠ []) : firstRanked (fun _ => ()) (ordered key) l ≠ [] := by
  obtain ⟨x, hx, hle⟩ := exists_first key h
  refine List.ne_nil_of_mem ((mem_firstRanked _ _).mpr ⟨hx, fun y hy _ => ?_⟩)
  simpa [ordered] using hle y hy

theorem firstRanked_of_increasing (h : l.Pairwise fun x y => key x < key y) :
    firstRanked (fun _ => ()) (ordered key) l = l.head?.toList := by
  cases l with
  | nil => rfl
  | cons x l =>
    obtain ⟨hx, -⟩ := List.pairwise_cons.mp h
    have hfirst : (rowNumber (fun _ => ()) (ordered key) (x :: l) x == 1) = true := by
      rw [beq_iff_eq, rowNumber_eq_one, List.forall_mem_cons]
      simp only [ordered, decide_eq_false_iff_not, not_lt, forall_const, le_refl, true_and]
      exact fun y hy => le_of_lt (hx y hy)
    have hrest : ∀ y ∈ l, ¬ (rowNumber (fun _ => ()) (ordered key) (x :: l) y == 1) = true := by
      intro y hy e
      rw [beq_iff_eq, rowNumber_eq_one] at e
      have := e x (List.mem_cons_self ..) rfl
      simp only [ordered, decide_eq_false_iff_not] at this
      exact this (hx y hy)
    unfold firstRanked
    rw [List.filter_cons_of_pos (p := fun y => rowNumber (fun _ => ()) (ordered key) (x :: l) y == 1) hfirst,
      List.filter_eq_nil_iff.mpr hrest]
    rfl

theorem firstRanked_reverse {before : β → β → Bool} :
    firstRanked (fun _ => ()) before l.reverse = (firstRanked (fun _ => ()) before l).reverse := by
  unfold firstRanked
  rw [List.filter_reverse]
  congr 1
  apply List.filter_congr
  intro x _
  unfold rowNumber
  rw [List.countP_reverse]

theorem firstRanked_of_decreasing (h : l.Pairwise fun x y => key y < key x) :
    firstRanked (fun _ => ()) (ordered key) l = l.getLast?.toList := by
  have hrev := firstRanked_of_increasing (List.pairwise_reverse.mpr h)
  rw [firstRanked_reverse, List.head?_reverse] at hrev
  rw [← List.reverse_reverse (firstRanked _ _ l), hrev]
  cases l.getLast? <;> rfl

end

section
variable {v : AlignmentViewport} {rows : List AlignedRow}

theorem mem_leftNeighbor_iff {r : AlignedRow} : r ∈ leftNeighbor v rows ↔ (r ∈ rows ∧ r.axisValue < v.start) ∧
    ∀ s ∈ rows, s.axisValue < v.start →
      s.axisValue < r.axisValue ∨ s.axisValue = r.axisValue ∧ s.row.step ≤ r.row.step := by
  unfold leftNeighbor
  simp only [mem_firstRanked, List.mem_filter, decide_eq_true_eq, ordered, decide_eq_false_iff_not, not_lt,
    Prod.Lex.toLex_le_toLex, forall_const, and_imp]
  refine and_congr_right fun _ => forall_congr' fun s => forall_congr' fun _ => forall_congr' fun _ => ?_
  omega

theorem mem_rightNeighbor_iff {r : AlignedRow} : r ∈ rightNeighbor v rows ↔ (r ∈ rows ∧ v.stop < r.axisValue) ∧
    ∀ s ∈ rows, v.stop < s.axisValue →
      r.axisValue < s.axisValue ∨ r.axisValue = s.axisValue ∧ r.row.step ≤ s.row.step := by
  unfold rightNeighbor
  simp only [mem_firstRanked, List.mem_filter, decide_eq_true_eq, ordered, decide_eq_false_iff_not, not_lt,
    Prod.Lex.toLex_le_toLex, forall_const, and_imp]

theorem visibleSource_eq_nil : visibleSource v rows = [] ↔ rows = [] := by
  constructor
  · intro h
    simp only [visibleSource, List.append_eq_nil_iff] at h
    obtain ⟨⟨hi, hl⟩, hr⟩ := h
    have hleft : rows.filter (fun r => decide (r.axisValue < v.start)) = [] := by
      by_contra hne
      exact firstRanked_ne_nil _ hne hl
    have hright : rows.filter (fun r => decide (v.stop < r.axisValue)) = [] := by
      by_contra hne
      exact firstRanked_ne_nil _ hne hr
    -- a row is inside or on one side
    apply List.eq_nil_iff_forall_not_mem.mpr
    intro r hmem
    have hin := List.filter_eq_nil_iff.mp hi r hmem
    have hnl := List.filter_eq_nil_iff.mp hleft r hmem
    have hnr := List.filter_eq_nil_iff.mp hright r hmem
    rw [contains_iff] at hin
    simp only [decide_eq_true_eq] at hnl hnr
    omega
  · intro h
    subst h
    rfl

end

/-! ## Consecutive rows -/

theorem steps_nodup {rows : List AlignedRow} (hsteps : rows.Pairwise fun r s => r.row.step < s.row.step) :
    (rows.map fun r => r.row.step).Nodup := by
  rw [List.nodup_iff_pairwise_ne, List.pairwise_map]
  exact hsteps.imp fun h => Int.ne_of_lt h

section
variable {v : AlignmentViewport} {rows : List AlignedRow}
  (hsteps : rows.Pairwise fun r s => r.row.step < s.row.step)
  (haxis : rows.Pairwise fun r s => r.axisValue ≤ s.axisValue)

def leftRows (v : AlignmentViewport) (rows : List AlignedRow) : List AlignedRow :=
  rows.filter fun r => decide (r.axisValue < v.start)

def rightRows (v : AlignmentViewport) (rows : List AlignedRow) : List AlignedRow :=
  rows.filter fun r => decide (v.stop < r.axisValue)

include haxis

/-- The rows on the left, the inside ones and those on the right follow one another. -/
theorem rows_split : rows = leftRows v rows ++ insideRows v rows ++ rightRows v rows := by
  have hleft := eq_filter_append (p := fun r : AlignedRow => decide (r.axisValue < v.start))
    (haxis.imp fun h => by simp only [decide_eq_true_eq]; omega)
  have hright := eq_filter_append (p := fun r : AlignedRow => decide (r.axisValue ≤ v.stop))
    ((haxis.filter fun r => !decide (r.axisValue < v.start)).imp fun h => by simp only [decide_eq_true_eq]; omega)
  rw [List.filter_filter, List.filter_filter] at hright
  rw [hright, ← List.append_assoc] at hleft
  convert hleft using 2
  · congr 1
    apply List.filter_congr
    intro r _
    rw [Bool.eq_iff_iff, contains_iff]
    simp only [Bool.and_eq_true, decide_eq_true_eq, Bool.not_eq_true', decide_eq_false_iff_not]
    omega
  · apply List.filter_congr
    intro r _
    have := v.ordered
    rw [Bool.eq_iff_iff]
    simp only [Bool.and_eq_true, decide_eq_true_eq, Bool.not_eq_true', decide_eq_false_iff_not]
    omega

theorem visible_sublist : (leftNeighbor v rows ++ insideRows v rows ++ rightNeighbor v rows).Sublist rows := by
  conv_rhs => rw [rows_split (v := v) haxis]
  exact (List.filter_sublist.append (List.Sublist.refl _)).append List.filter_sublist

include hsteps

theorem leftNeighbor_eq : leftNeighbor v rows = (leftRows v rows).getLast?.toList := by
  apply firstRanked_of_decreasing
  refine (hsteps.filter _).imp₂ (fun r s h h' => ?_) (haxis.filter _)
  simp only [Prod.Lex.toLex_lt_toLex]
  omega

theorem rightNeighbor_eq : rightNeighbor v rows = (rightRows v rows).head?.toList := by
  apply firstRanked_of_increasing
  refine (hsteps.filter _).imp₂ (fun r s h h' => ?_) (haxis.filter _)
  simp only [Prod.Lex.toLex_lt_toLex]
  omega

theorem visible_block : orderBy (fun r : AlignedRow => r.row.step) (visibleSource v rows) =
    leftNeighbor v rows ++ insideRows v rows ++ rightNeighbor v rows := by
  have hsub := visible_sublist (v := v) haxis
  refine eq_of_strict _ (orderBy_strict _ (visible_steps (steps_nodup hsteps))) (hsteps.sublist hsub) fun r => ?_
  rw [mem_orderBy]
  simp only [visibleSource, List.mem_append]
  tauto

/-- The axis of selected points is that of a subsequence of the rows. -/
theorem selected_axis (screenLimits : Option (Nat × Nat)) : ∃ kept : List AlignedRow, kept.Sublist rows ∧
    (pointsOf (selectedRows v screenLimits rows)).map AlignedMetricPoint.axisValue =
      kept.map AlignedRow.axisValue := by
  refine ⟨(leftNeighbor v rows ++ insideRows v rows ++ rightNeighbor v rows).filter (v.keeps screenLimits rows),
    List.filter_sublist.trans (visible_sublist haxis), ?_⟩
  rw [pointsOf_selected (steps_nodup hsteps), visible_block hsteps haxis, List.map_map]
  exact List.map_congr_left fun r _ => returned_axisValue screenLimits r

end

/-! ## query_aligned_metric -/

/-- The effective series in step order, with its axis values. -/
def alignedSeries (source : MetricSource) (axis : AxisExpression) (query : AlignmentQuery) :
    List AlignedMetricPoint :=
  (orderedRows source axis query).map AlignedRow.point

/-- The greatest axis value before the viewport, with the greatest step that has it. -/
def IsLeftNeighbor (v : AlignmentViewport) (series : List AlignedMetricPoint) (p : AlignedMetricPoint) : Prop :=
  p.axisValue < v.start ∧ ∀ q ∈ series, q.axisValue < v.start →
    q.axisValue < p.axisValue ∨ q.axisValue = p.axisValue ∧ q.point.step ≤ p.point.step

/-- The least axis value after the viewport, with the least step that has it. -/
def IsRightNeighbor (v : AlignmentViewport) (series : List AlignedMetricPoint) (p : AlignedMetricPoint) : Prop :=
  v.stop < p.axisValue ∧ ∀ q ∈ series, v.stop < q.axisValue →
    p.axisValue < q.axisValue ∨ p.axisValue = q.axisValue ∧ p.point.step ≤ q.point.step

/-- What a full query shows of a series: its points in the viewport and the
nearest on either side, which are consecutive where the axis never decreases. -/
structure AlignedWindow (v : AlignmentViewport) (series points : List AlignedMetricPoint) : Prop where
  ordered : points.Pairwise fun p q => p.point.step < q.point.step
  members : ∀ p, p ∈ points ↔ p ∈ series ∧
    (v.covers p = true ∨ IsLeftNeighbor v series p ∨ IsRightNeighbor v series p)
  left : (points.filter v.isLeft).length ≤ 1
  right : (points.filter v.isRight).length ≤ 1
  empty : points = [] ↔ series = []
  block : (series.IsChain fun p q => p.axisValue ≤ q.axisValue) → ∃ left inside right,
    series = left ++ inside ++ right ∧ (∀ p ∈ left, v.isLeft p = true) ∧ (∀ p ∈ inside, v.covers p = true) ∧
      (∀ p ∈ right, v.isRight p = true) ∧ points = left.getLast?.toList ++ inside ++ right.head?.toList

section
variable {v : AlignmentViewport} {rows : List AlignedRow}

theorem mem_pointsOf {l : List AlignedRow} {p : AlignedMetricPoint} : p ∈ pointsOf l ↔ ∃ r ∈ l, r.point = p := by
  simp [pointsOf]

theorem left_point_iff {r : AlignedRow} (h : r ∈ rows) :
    r ∈ leftNeighbor v rows ↔ IsLeftNeighbor v (rows.map AlignedRow.point) r.point := by
  rw [mem_leftNeighbor_iff, IsLeftNeighbor, List.forall_mem_map]
  simp only [h, true_and]
  rfl

theorem right_point_iff {r : AlignedRow} (h : r ∈ rows) :
    r ∈ rightNeighbor v rows ↔ IsRightNeighbor v (rows.map AlignedRow.point) r.point := by
  rw [mem_rightNeighbor_iff, IsRightNeighbor, List.forall_mem_map]
  simp only [h, true_and]
  rfl

theorem visible_members (p : AlignedMetricPoint) : p ∈ pointsOf (visibleSource v rows) ↔
    p ∈ rows.map AlignedRow.point ∧ (v.covers p = true ∨ IsLeftNeighbor v (rows.map AlignedRow.point) p ∨
      IsRightNeighbor v (rows.map AlignedRow.point) p) := by
  rw [mem_pointsOf]
  constructor
  · rintro ⟨r, hr, rfl⟩
    have hmem := visible_sub hr
    refine ⟨List.mem_map_of_mem hmem, ?_⟩
    rw [← left_point_iff hmem, ← right_point_iff hmem]
    simp only [visibleSource, List.mem_append, or_assoc] at hr
    exact hr.imp_left fun h => (mem_insideRows h).2
  · rintro ⟨hp, h⟩
    obtain ⟨r, hr, rfl⟩ := List.mem_map.mp hp
    rw [← left_point_iff hr, ← right_point_iff hr] at h
    refine ⟨r, ?_, rfl⟩
    simp only [visibleSource, List.mem_append, or_assoc]
    exact h.imp_left fun h => List.mem_filter.mpr ⟨hr, h⟩

theorem window_of_rows (hsteps : rows.Pairwise fun r s => r.row.step < s.row.step) :
    AlignedWindow v (rows.map AlignedRow.point) (pointsOf (visibleSource v rows)) := by
  have hn := steps_nodup hsteps
  constructor
  · simp only [pointsOf, List.pairwise_map]
    exact orderBy_strict _ (visible_steps hn)
  · exact visible_members
  · rw [length_filter_pointsOf (q := fun r => decide (r.axisValue < v.start)) fun _ => rfl, visible_left]
    exact length_leftNeighbor hn
  · rw [length_filter_pointsOf (q := fun r => decide (v.stop < r.axisValue)) fun _ => rfl, visible_right]
    exact length_rightNeighbor hn
  · simp [pointsOf, visibleSource_eq_nil]
  · intro hchain
    rw [List.isChain_iff_pairwise, List.pairwise_map] at hchain
    refine ⟨(leftRows v rows).map AlignedRow.point, (insideRows v rows).map AlignedRow.point,
      (rightRows v rows).map AlignedRow.point, ?_, ?_, ?_, ?_, ?_⟩
    · rw [← List.map_append, ← List.map_append, ← rows_split hchain]
    · rw [List.forall_mem_map]
      exact fun r hr => (List.mem_filter.mp hr).2
    · rw [List.forall_mem_map]
      exact fun r hr => (mem_insideRows hr).2
    · rw [List.forall_mem_map]
      exact fun r hr => (List.mem_filter.mp hr).2
    · unfold pointsOf
      rw [visible_block hsteps hchain, leftNeighbor_eq hsteps hchain, rightNeighbor_eq hsteps hchain,
        List.map_append, List.map_append, List.getLast?_map, List.head?_map]
      cases (leftRows v rows).getLast? <;> cases (rightRows v rows).head? <;> rfl

end

theorem decreasing_mem_iff {rows : List AlignedRow} :
    AlignmentReason.decreasingAxis ∈ seriesReasons rows ↔ hasDecreasingAxis rows = true := by
  unfold seriesReasons axisReasons
  cases hasNegativeAxis rows <;> cases hasDecreasingAxis rows <;> simp

theorem negative_mem_iff {rows : List AlignedRow} :
    AlignmentReason.negativeAxis ∈ seriesReasons rows ↔ hasNegativeAxis rows = true := by
  unfold seriesReasons axisReasons
  cases hasNegativeAxis rows <;> cases hasDecreasingAxis rows <;> simp

theorem aligned_full_window {accepts : Int → Bool} {source : MetricSource} {axis : AxisExpression}
    {query : AlignmentQuery} {result : AlignmentQueryResult}
    (h : queryAlignedMetric accepts source { query with reduction := .full } axis = .ok result)
    (runStatus : RunStatus) :
    AlignedWindow query.viewport (alignedSeries source axis query) result.points ∧
      (AlignmentReason.decreasingAxis ∈ result.reasons ↔
        ¬ (alignedSeries source axis query).IsChain fun p q => p.axisValue ≤ q.axisValue) ∧
      (alignedMetricResult result runStatus).points = result.points := by
  obtain ⟨-, -, rfl⟩ := queryAlignedMetric_ok_iff.mp h
  refine ⟨window_of_rows orderedRows_strict, ?_, rfl⟩
  have hchain := @orderedRows_increasing source axis query
  unfold alignedSeries
  rw [List.isChain_iff_pairwise, List.pairwise_map]
  change _ ∈ seriesReasons (orderedRows source axis query) ↔ ¬ (orderedRows source axis query).Pairwise
    fun r s => r.axisValue ≤ s.axisValue
  rw [← hchain, decreasing_mem_iff, Bool.not_eq_false]

theorem aligned_full_window_plotted : ∃ result,
    queryAlignedMetric nearEpoch (.project plottedPoints) (plottedQuery .full) .step = .ok result ∧
      AlignedWindow (plottedQuery .full).viewport
        (alignedSeries (.project plottedPoints) .step (plottedQuery .full))
        result.points := by
  obtain ⟨result, h⟩ := plotted_ok .full
  rw [reader_step rfl] at h
  exact ⟨result, h, (aligned_full_window h .finished).1⟩

end Pulseon
