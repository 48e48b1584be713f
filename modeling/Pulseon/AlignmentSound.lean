import Pulseon.Alignment
import Pulseon.ScreenSound

/-!
# Aligned screen reduction

The rows of an aligned query have distinct steps, so a screen query's rows are
a filter of the visible ones: every neighbour passes it, and of the inside rows
at most four for each bucket when there are more than the budget.
-/

namespace Pulseon

def AlignedRow.point (r : AlignedRow) : AlignedMetricPoint := ⟨r.row.point, r.axisValue⟩

def pointsOf (l : List AlignedRow) : List AlignedMetricPoint :=
  (orderBy (fun r : AlignedRow => r.row.step) l).map AlignedRow.point

/-- The point is inside the closed viewport. -/
def AlignmentViewport.covers (v : AlignmentViewport) (p : AlignedMetricPoint) : Bool :=
  decide (v.start ≤ p.axisValue) && decide (p.axisValue ≤ v.stop)

def AlignmentViewport.isLeft (v : AlignmentViewport) (p : AlignedMetricPoint) : Bool :=
  decide (p.axisValue < v.start)

def AlignmentViewport.isRight (v : AlignmentViewport) (p : AlignedMetricPoint) : Bool :=
  decide (v.stop < p.axisValue)

/-- The points are the same at the same axis value. -/
structure AlignedMetricPoint.Same (p q : AlignedMetricPoint) : Prop where
  point : p.point.Same q.point
  axisValue : p.axisValue = q.axisValue

/-- What a screen query returns next to the full query: a subsequence of its
points, of the inside ones no more than the budget and with the shape of all of
them, and every neighbour. Points are the same but for the bits of values that
sort alike. -/
structure AlignedReduction (v : AlignmentViewport) (maxPoints : Nat) (full screen : AlignmentQueryResult) :
    Prop where
  sublist : List.SublistForall₂ AlignedMetricPoint.Same screen.points full.points
  ordered : screen.points.Pairwise fun p q => p.point.step < q.point.step
  inside : (screen.points.filter v.covers).length ≤ maxPoints
  left : List.Forall₂ AlignedMetricPoint.Same (screen.points.filter v.isLeft) (full.points.filter v.isLeft) ∧
    (full.points.filter v.isLeft).length ≤ 1
  right : List.Forall₂ AlignedMetricPoint.Same (screen.points.filter v.isRight) (full.points.filter v.isRight) ∧
    (full.points.filter v.isRight).length ≤ 1
  shape : full.points.filter v.covers ≠ [] →
    KeepsShape AlignedMetricPoint.Same (fun p : AlignedMetricPoint => toLex (p.axisValue, p.point.step))
      (fun p => p.point.valueF64) (full.points.filter v.covers) (screen.points.filter v.covers)
  count : screen.sourceRowCount = full.sourceRowCount

/-! ## Rows in step order -/

theorem lagged_rows (axis : AxisExpression) (previous : Option Int) (rows : List MetricPointRow) :
    (lagged axis previous rows).map AlignedRow.row = rows := by
  induction rows generalizing previous with
  | nil => rfl
  | cons row rows ih => simp [lagged, ih]

theorem lagged_axisValues (axis : AxisExpression) (previous : Option Int) (rows : List MetricPointRow) :
    (lagged axis previous rows).map AlignedRow.axisValue = rows.map axis.value := by
  induction rows generalizing previous with
  | nil => rfl
  | cons row rows ih => simp [lagged, ih]

theorem orderedRows_steps (source : MetricSource) (axis : AxisExpression) (query : AlignmentQuery) :
    ((orderedRows source axis query).map fun r => r.row.step).Nodup := by
  have hsteps := effectiveRows_steps source ⟨query.runId, query.metricKey, none, none, .full⟩
  have hmap : (orderedRows source axis query).map (fun r => r.row.step) =
      ((orderedRows source axis query).map AlignedRow.row).map fun row => row.step := by
    rw [List.map_map]; rfl
  rw [hmap, orderedRows, lagged_rows]
  exact ((orderBy_perm _ _).map _).nodup_iff.mpr hsteps

/-! ## The visible rows -/

section
variable {v : AlignmentViewport} {rows : List AlignedRow}

theorem mem_insideRows {r : AlignedRow} (h : r ∈ insideRows v rows) : r ∈ rows ∧ v.contains r = true :=
  List.mem_filter.mp h

theorem mem_leftNeighbor {r : AlignedRow} (h : r ∈ leftNeighbor v rows) : r ∈ rows ∧ r.axisValue < v.start := by
  simpa using ((mem_firstRanked _ _).mp h).1

theorem mem_rightNeighbor {r : AlignedRow} (h : r ∈ rightNeighbor v rows) : r ∈ rows ∧ v.stop < r.axisValue := by
  simpa using ((mem_firstRanked _ _).mp h).1

theorem contains_iff {r : AlignedRow} : v.contains r = true ↔ v.start ≤ r.axisValue ∧ r.axisValue ≤ v.stop := by
  simp [AlignmentViewport.contains]

theorem left_not_contained {r : AlignedRow} (h : r.axisValue < v.start) : v.contains r = false := by
  rw [Bool.eq_false_iff, ne_eq, contains_iff]; omega

theorem right_not_contained {r : AlignedRow} (h : v.stop < r.axisValue) : v.contains r = false := by
  rw [Bool.eq_false_iff, ne_eq, contains_iff]; omega

theorem visible_sub {r : AlignedRow} (h : r ∈ visibleSource v rows) : r ∈ rows := by
  simp only [visibleSource, List.mem_append] at h
  rcases h with (h | h) | h
  · exact (mem_insideRows h).1
  · exact (mem_leftNeighbor h).1
  · exact (mem_rightNeighbor h).1

theorem filter_all {α : Type*} {p : α → Bool} {l : List α} (h : ∀ x ∈ l, p x = true) : l.filter p = l :=
  List.filter_eq_self.mpr h

theorem filter_none {α : Type*} {p : α → Bool} {l : List α} (h : ∀ x ∈ l, p x = false) : l.filter p = [] :=
  List.filter_eq_nil_iff.mpr fun x hx e => by rw [h x hx] at e; cases e

section
variable (hn : (rows.map fun r => r.row.step).Nodup)
include hn

theorem row_of_step {r s : AlignedRow} (hr : r ∈ rows) (hs : s ∈ rows) (h : r.row.step = s.row.step) : r = s :=
  List.inj_on_of_nodup_map hn hr hs h

theorem rows_nodup : rows.Nodup := List.Nodup.of_map _ hn

theorem visible_nodup : (visibleSource v rows).Nodup := by
  have hrows := rows_nodup hn
  have hl : (leftNeighbor v rows).Nodup := (hrows.filter _).filter _
  have hr : (rightNeighbor v rows).Nodup := (hrows.filter _).filter _
  unfold visibleSource
  rw [List.nodup_append, List.nodup_append]
  refine ⟨⟨hrows.filter _, hl, ?_⟩, hr, ?_⟩
  · intro x hx y hy e
    have h := left_not_contained (mem_leftNeighbor hy).2
    rw [← e, (mem_insideRows hx).2] at h; cases h
  · intro x hx y hy e
    have hy' := (mem_rightNeighbor hy).2
    rcases List.mem_append.mp hx with hx | hx
    · have h := right_not_contained hy'
      rw [← e, (mem_insideRows hx).2] at h; cases h
    · have := (mem_leftNeighbor hx).2
      have := v.ordered
      rw [← e] at hy'
      omega

theorem visible_steps : ((visibleSource v rows).map fun r => r.row.step).Nodup :=
  List.Nodup.map_on (fun _ hx _ hy e => row_of_step hn (visible_sub hx) (visible_sub hy) e) (visible_nodup hn)

theorem length_neighbor_le {κ : Type*} [LinearOrder κ] {key : AlignedRow → κ} (p : AlignedRow → Bool)
    (hkey : ∀ r s, key r = key s → r.row.step = s.row.step) :
    (firstRanked (fun _ => ()) (ordered key) (rows.filter p)).length ≤ 1 := by
  have h : ((firstRanked (fun _ : AlignedRow => ()) (ordered key) (rows.filter p)).map fun _ => ()).Nodup :=
    firstRanked_nodup _ ((rows_nodup hn).filter p) fun x hx y hy hxy _ => ordered_total fun e =>
      hxy (row_of_step hn (List.mem_filter.mp hx).1 (List.mem_filter.mp hy).1 (hkey x y e))
  have hsub : (firstRanked (fun _ : AlignedRow => ()) (ordered key) (rows.filter p)).map (fun _ => ()) ⊆ [()] :=
    fun _ _ => List.mem_singleton.mpr rfl
  have hlen := (List.subperm_of_subset h hsub).length_le
  rwa [List.length_map] at hlen

theorem length_leftNeighbor : (leftNeighbor v rows).length ≤ 1 :=
  length_neighbor_le hn _ fun r s e => by
    have := (Prod.mk.inj (toLex.injective e)).2
    omega

theorem length_rightNeighbor : (rightNeighbor v rows).length ≤ 1 :=
  length_neighbor_le hn _ fun _ _ e => (Prod.mk.inj (toLex.injective e)).2

end

/-! ## The selected rows -/

def insideKept (bucketCount maxPoints : Nat) (inside : List AlignedRow) (r : AlignedRow) : Bool :=
  decide (inside.length ≤ maxPoints) ||
    insideOrders.any fun before => rowNumber (bucket (fun r => r.row.step) bucketCount inside) before inside r == 1

/-- The visible rows that are selected. -/
def AlignmentViewport.keeps (v : AlignmentViewport) (screenLimits : Option (Nat × Nat)) (rows : List AlignedRow)
    (r : AlignedRow) : Bool :=
  !v.contains r || screenLimits.all fun limits => insideKept limits.1 limits.2 (insideRows v rows) r

theorem keeps_inside {bucketCount maxPoints : Nat} :
    (insideRows v rows).filter (v.keeps (some (bucketCount, maxPoints)) rows) =
      insideSelected bucketCount maxPoints (insideRows v rows) := by
  apply List.filter_congr
  intro r hr
  simp [AlignmentViewport.keeps, (mem_insideRows hr).2, insideKept]

/-- A visible row as it is returned: an inside row of a screen query comes out of the windows. -/
def AlignmentViewport.returned (v : AlignmentViewport) (screenLimits : Option (Nat × Nat)) (r : AlignedRow) :
    AlignedRow :=
  if screenLimits.isSome && v.contains r then r.fromSortKey else r

section
variable (screenLimits : Option (Nat × Nat)) (r : AlignedRow)

@[simp] theorem returned_step : (v.returned screenLimits r).row.step = r.row.step := by
  unfold AlignmentViewport.returned
  split <;> rfl

@[simp] theorem returned_axisValue : (v.returned screenLimits r).axisValue = r.axisValue := by
  unfold AlignmentViewport.returned
  split <;> rfl

@[simp] theorem returned_key : (v.returned screenLimits r).row.valueF64.key = r.row.valueF64.key := by
  unfold AlignmentViewport.returned
  split
  · exact r.row.valueF64.key_fromSortKey
  · rfl

theorem returned_same : (v.returned screenLimits r).point.Same r.point := by
  unfold AlignmentViewport.returned
  split
  · exact ⟨fromSortKey_same r.row, rfl⟩
  · exact ⟨.refl _, rfl⟩

theorem returned_representable {accepts : Int → Bool} :
    Representable accepts (v.returned screenLimits r).row ↔ Representable accepts r.row := by
  unfold AlignmentViewport.returned
  split <;> rfl

end

theorem selectedRows_eq (screenLimits : Option (Nat × Nat)) : selectedRows v screenLimits rows =
    ((visibleSource v rows).filter (v.keeps screenLimits rows)).map (v.returned screenLimits) := by
  have hl : (leftNeighbor v rows).filter (v.keeps screenLimits rows) = leftNeighbor v rows :=
    filter_all fun r hr => by simp [AlignmentViewport.keeps, left_not_contained (mem_leftNeighbor hr).2]
  have hr : (rightNeighbor v rows).filter (v.keeps screenLimits rows) = rightNeighbor v rows :=
    filter_all fun r hr => by simp [AlignmentViewport.keeps, right_not_contained (mem_rightNeighbor hr).2]
  have hself : ∀ l : List AlignedRow, (∀ r ∈ l, screenLimits.isSome = true → v.contains r = false) →
      l.map (v.returned screenLimits) = l := by
    intro l h
    refine (List.map_congr_left fun r hr => ?_).trans (List.map_id l)
    unfold AlignmentViewport.returned
    cases hs : screenLimits.isSome <;> simp [h r hr, hs]
  cases screenLimits with
  | none =>
    have hkeep : (visibleSource v rows).filter (v.keeps none rows) = visibleSource v rows :=
      filter_all fun r _ => by simp [AlignmentViewport.keeps]
    rw [hkeep, hself _ fun _ _ h => by cases h]
    rfl
  | some limits =>
    obtain ⟨bucketCount, maxPoints⟩ := limits
    have hinside : (insideSelected bucketCount maxPoints (insideRows v rows)).map AlignedRow.fromSortKey =
        (insideSelected bucketCount maxPoints (insideRows v rows)).map
          (v.returned (some (bucketCount, maxPoints))) :=
      List.map_congr_left fun r hr => by
        simp [AlignmentViewport.returned, (mem_insideRows (List.mem_filter.mp hr).1).2]
    simp only [selectedRows, visibleSource, List.filter_append, List.map_append, hl, hr, keeps_inside, hinside,
      hself _ fun r hr _ => left_not_contained (mem_leftNeighbor hr).2,
      hself _ fun r hr _ => right_not_contained (mem_rightNeighbor hr).2]

theorem mem_selectedRows {screenLimits : Option (Nat × Nat)} {r : AlignedRow}
    (h : r ∈ selectedRows v screenLimits rows) :
    ∃ z ∈ visibleSource v rows, v.keeps screenLimits rows z = true ∧ v.returned screenLimits z = r := by
  rw [selectedRows_eq] at h
  obtain ⟨z, hz, hr⟩ := List.mem_map.mp h
  exact ⟨z, (List.mem_filter.mp hz).1, (List.mem_filter.mp hz).2, hr⟩

theorem selectedRows_representable {accepts : Int → Bool} {screenLimits : Option (Nat × Nat)}
    (h : ∀ r ∈ visibleSource v rows, Representable accepts r.row) :
    ∀ r ∈ selectedRows v screenLimits rows, Representable accepts r.row := by
  intro r hr
  obtain ⟨z, hz, -, rfl⟩ := mem_selectedRows hr
  exact (returned_representable screenLimits z).mpr (h z hz)

theorem selectFirst_sub_insideSelected {bucketCount maxPoints : Nat} {inside : List AlignedRow} {r : AlignedRow}
    (h : r ∈ selectFirst (bucket (fun r => r.row.step) bucketCount inside) insideOrders inside) :
    r ∈ insideSelected bucketCount maxPoints inside := by
  obtain ⟨hr, hk⟩ := List.mem_filter.mp h
  exact List.mem_filter.mpr ⟨hr, by rw [hk, Bool.or_true]⟩

theorem inside_keepsShape (bucketCount maxPoints : Nat) {inside : List AlignedRow} (h : inside ≠ []) :
    KeepsShape Eq (fun r : AlignedRow => toLex (r.axisValue, r.row.step)) (fun r => r.row.valueF64) inside
      (insideSelected bucketCount maxPoints inside) := by
  refine KeepsShape.mono ?_ fun r hr => selectFirst_sub_insideSelected hr
  apply KeepsShape.of_orders (bucket (fun r : AlignedRow => r.row.step) bucketCount inside)
    (fun r : AlignedRow => toLex (r.axisValue, r.row.step))
      (fun r : AlignedRow => toLex (-r.axisValue, -r.row.step))
    (fun r : AlignedRow => toLex (r.row.valueF64.key, toLex (r.axisValue, r.row.step)))
    (fun r : AlignedRow => toLex (-r.row.valueF64.key, toLex (r.axisValue, r.row.step)))
  all_goals first | exact h | skip
  · simp [insideOrders]
  · simp [insideOrders]
  · simp [insideOrders]
  · simp [insideOrders]
  · exact fun x y hxy => hxy
  · intro x y hxy
    simp only [Prod.Lex.toLex_le_toLex] at hxy ⊢
    omega
  · exact fun x y hxy => fst_le_of_toLex_le hxy
  · exact fun x y hxy => Int.neg_le_neg_iff.mp (fst_le_of_toLex_le hxy)

theorem insideOrders_total {inside : List AlignedRow} (hn : (inside.map fun r => r.row.step).Nodup) :
    ∀ before ∈ insideOrders, ∀ x ∈ inside, ∀ y ∈ inside, x ≠ y → before x y = true ∨ before y x = true := by
  intro before hb x hx y hy hxy
  have hs : x.row.step ≠ y.row.step := fun e => hxy (row_of_step hn hx hy e)
  simp only [insideOrders, List.mem_cons, List.not_mem_nil, or_false] at hb
  rcases hb with rfl | rfl | rfl | rfl
  · exact ordered_total fun e => hs (Prod.mk.inj (toLex.injective e)).2
  · exact ordered_total fun e => hs (neg_injective (Prod.mk.inj (toLex.injective e)).2)
  · exact ordered_total fun e => hs (Prod.mk.inj (toLex.injective (Prod.mk.inj (toLex.injective e)).2)).2
  · exact ordered_total fun e => hs (Prod.mk.inj (toLex.injective (Prod.mk.inj (toLex.injective e)).2)).2

theorem length_insideSelected {bucketCount maxPoints : Nat} {inside : List AlignedRow}
    (hn : (inside.map fun r => r.row.step).Nodup) (hb : 0 < bucketCount) (hm : 4 * bucketCount ≤ maxPoints) :
    (insideSelected bucketCount maxPoints inside).length ≤ maxPoints := by
  by_cases hfit : inside.length ≤ maxPoints
  · exact le_trans (List.length_filter_le _ _) hfit
  · have heq : insideSelected bucketCount maxPoints inside =
        selectFirst (bucket (fun r => r.row.step) bucketCount inside) insideOrders inside := by
      simp [insideSelected, selectFirst, hfit]
    rw [heq]
    exact le_trans (length_selectFirst_bucket insideOrders hb (List.Nodup.of_map _ hn) (insideOrders_total hn)) hm

end

/-! ## Reading the rows -/

section
variable {accepts : Int → Bool}

theorem intoAlignedMetricPoint_eq (r : AlignedRow) :
    intoAlignedMetricPoint accepts r = (intoMetricPoint accepts r.row).map fun p => ⟨p, r.axisValue⟩ := by
  unfold intoAlignedMetricPoint intoMetricPoint
  cases timestampFromMillis accepts "timestamp" r.row.timestamp with
  | error e => rfl
  | ok t => cases timestampFromMillis accepts "ingested_at" r.row.ingestedAt <;> rfl

theorem intoAlignedMetricPoint_ok {r : AlignedRow} (h : Representable accepts r.row) :
    intoAlignedMetricPoint accepts r = .ok r.point := by
  rw [intoAlignedMetricPoint_eq, intoMetricPoint_ok h]; rfl

theorem intoAlignedMetricPoint_representable {r : AlignedRow} {p : AlignedMetricPoint}
    (h : intoAlignedMetricPoint accepts r = .ok p) : Representable accepts r.row := by
  rw [intoAlignedMetricPoint_eq] at h
  cases hp : intoMetricPoint accepts r.row with
  | error e => rw [hp] at h; cases h
  | ok q => exact (intoMetricPoint_ok_iff.mp hp).1

/-- A row is read when it is representable, and sets the counts. -/
theorem readAlignmentRows_cons {r : AlignedRow} {count : Nat} {negative decreasing : Bool}
    {rest : List StoredAlignmentRow} {acc out : AlignmentReading} :
    readAlignmentRows accepts (⟨some r, count, negative, decreasing⟩ :: rest) acc = .ok out ↔
      Representable accepts r.row ∧
        readAlignmentRows accepts rest ⟨acc.points ++ [r.point], count, negative, decreasing⟩ = .ok out := by
  simp only [readAlignmentRows, bind, Except.bind, pure, Except.pure]
  by_cases hr : Representable accepts r.row
  · simp [intoAlignedMetricPoint_ok hr, hr]
  · simp only [hr, false_and, iff_false]
    cases hp : intoAlignedMetricPoint accepts r with
    | error e => simp
    | ok p => exact absurd (intoAlignedMetricPoint_representable hp) hr

theorem readAlignmentRows_iff {rows : List AlignedRow} {count : Nat} {negative decreasing : Bool}
    {points : List AlignedMetricPoint} {out : AlignmentReading} :
    readAlignmentRows accepts (rows.map fun r => ⟨some r, count, negative, decreasing⟩)
        ⟨points, count, negative, decreasing⟩ = .ok out ↔
      (∀ r ∈ rows, Representable accepts r.row) ∧
        out = ⟨points ++ rows.map AlignedRow.point, count, negative, decreasing⟩ := by
  induction rows generalizing points with
  | nil => simp [readAlignmentRows, eq_comm]
  | cons r rows ih =>
    rw [List.map_cons, readAlignmentRows_cons, ih, List.forall_mem_cons, and_assoc]
    simp

/-- The reasons that the axis of the series gives. -/
def seriesReasons (rows : List AlignedRow) : List AlignmentReason :=
  axisReasons ⟨[], 0, hasNegativeAxis rows, hasDecreasingAxis rows⟩

theorem readAlignedPoints_iff {v : AlignmentViewport} {screenLimits : Option (Nat × Nat)} {rows : List AlignedRow}
    {out : AlignmentReading} :
    readAlignmentRows accepts (alignedPointsRows v screenLimits rows) ⟨[], 0, false, false⟩ = .ok out ↔
      (∀ r ∈ selectedRows v screenLimits rows, Representable accepts r.row) ∧
        out = ⟨pointsOf (selectedRows v screenLimits rows), (visibleSource v rows).length, hasNegativeAxis rows,
          hasDecreasingAxis rows⟩ := by
  have hmem : (∀ r ∈ selectedRows v screenLimits rows, Representable accepts r.row) ↔
      ∀ r ∈ orderBy (fun r : AlignedRow => r.row.step) (selectedRows v screenLimits rows),
        Representable accepts r.row := by
    simp only [mem_orderBy]
  rw [hmem]
  unfold alignedPointsRows pointsOf
  cases orderBy (fun r : AlignedRow => r.row.step) (selectedRows v screenLimits rows) with
  | nil => simp [readAlignmentRows, bind, Except.bind, pure, Except.pure, eq_comm]
  | cons r rest =>
    -- the first row sets the counts, the others leave them
    rw [List.map_cons, readAlignmentRows_cons, readAlignmentRows_iff, List.forall_mem_cons, and_assoc]
    simp

/-! ## query_aligned_metric -/

variable {source : MetricSource} {axis : AxisExpression} {query : AlignmentQuery}

theorem checkScreenLimits_ok (query : AlignmentQuery) : checkScreenLimits query.screenLimits = .ok () := by
  unfold AlignmentQuery.screenLimits AlignmentReduction.maxPoints
  cases query.reduction with
  | full => rfl
  | screenBudget budget =>
    have h := screenPoints_lt budget.pixelWidth budget.pointsPerPixel
    have hd := Nat.div_le_self (screenPoints budget.pixelWidth budget.pointsPerPixel) extremaPerBucket
    have hb : max (screenPoints budget.pixelWidth budget.pointsPerPixel / extremaPerBucket) 1 < 2 ^ 63 := by omega
    simp only [Option.map_some, checkScreenLimits, h, hb, ite_true]

theorem queryAlignedMetric_ok_iff {result : AlignmentQueryResult} :
    queryAlignedMetric accepts source query axis = .ok result ↔ validateAlignmentIdentity query = .ok () ∧
      (∀ r ∈ selectedRows query.viewport query.screenLimits (orderedRows source axis query),
        Representable accepts r.row) ∧
        result = ⟨pointsOf (selectedRows query.viewport query.screenLimits (orderedRows source axis query)),
          (visibleSource query.viewport (orderedRows source axis query)).length,
          seriesReasons (orderedRows source axis query)⟩ := by
  unfold queryAlignedMetric
  rw [checkScreenLimits_ok]
  cases hv : validateAlignmentIdentity query with
  | error e => simp [bind, Except.bind]
  | ok u =>
    simp only [bind, Except.bind, true_and]
    constructor
    · intro h
      split at h
      · cases h
      · rename_i reading hr
        obtain ⟨hrep, rfl⟩ := readAlignedPoints_iff.mp hr
        cases h
        exact ⟨hrep, rfl⟩
    · rintro ⟨hrep, rfl⟩
      rw [readAlignedPoints_iff.mpr ⟨hrep, rfl⟩]
      rfl

theorem orderedRows_source {r : AlignedRow} (h : r ∈ orderedRows source axis query) : r.row ∈ source.points := by
  have hmem : r.row ∈ (orderedRows source axis query).map AlignedRow.row := List.mem_map_of_mem h
  rw [orderedRows, lagged_rows, mem_orderBy] at hmem
  have hrow : r.row ∈ source.effectiveRows ⟨query.runId, query.metricKey, none, none, .full⟩ := hmem
  exact (effectiveRows_clause hrow).1

theorem queryAlignedMetric_ok (hv : validateAlignmentIdentity query = .ok ())
    (ha : ∀ row ∈ source.points, Representable accepts row) :
    ∃ result, queryAlignedMetric accepts source query axis = .ok result :=
  ⟨_, queryAlignedMetric_ok_iff.mpr
    ⟨hv, selectedRows_representable fun _ hr => ha _ (orderedRows_source (visible_sub hr)), rfl⟩⟩

/-- Where the full query succeeds, every reduction of it does. -/
theorem aligned_of_full {full : AlignmentQueryResult}
    (h : queryAlignedMetric accepts source { query with reduction := .full } axis = .ok full)
    (reduction : AlignmentReduction) :
    queryAlignedMetric accepts source { query with reduction := reduction } axis =
      .ok ⟨pointsOf (selectedRows query.viewport (AlignmentQuery.screenLimits { query with reduction := reduction })
        (orderedRows source axis query)), full.sourceRowCount, full.reasons⟩ := by
  obtain ⟨hv, hrep, rfl⟩ := queryAlignedMetric_ok_iff.mp h
  exact queryAlignedMetric_ok_iff.mpr ⟨hv, selectedRows_representable hrep, rfl⟩

/-! ## Screen queries -/

section
variable {v : AlignmentViewport} {rows : List AlignedRow} {screenLimits : Option (Nat × Nat)}

theorem selected_points (hn : (rows.map fun r => r.row.step).Nodup) :
    orderBy (fun r : AlignedRow => r.row.step) (selectedRows v screenLimits rows) =
      ((orderBy (fun r : AlignedRow => r.row.step) (visibleSource v rows)).filter (v.keeps screenLimits rows)).map
        (v.returned screenLimits) := by
  rw [selectedRows_eq, orderBy_map (fun r : AlignedRow => r.row.step) (returned_step screenLimits),
    orderBy_filter _ (visible_steps hn)]

theorem pointsOf_selected (hn : (rows.map fun r => r.row.step).Nodup) : pointsOf
    (selectedRows v screenLimits rows) =
    ((orderBy (fun r : AlignedRow => r.row.step) (visibleSource v rows)).filter (v.keeps screenLimits rows)).map
      fun r => (v.returned screenLimits r).point := by
  unfold pointsOf
  rw [selected_points hn, List.map_map]
  rfl

theorem keeps_left {r : AlignedRow} (h : r.axisValue < v.start) : v.keeps screenLimits rows r = true := by
  simp [AlignmentViewport.keeps, left_not_contained h]

theorem keeps_right {r : AlignedRow} (h : v.stop < r.axisValue) : v.keeps screenLimits rows r = true := by
  simp [AlignmentViewport.keeps, right_not_contained h]

/-- A filter that only passes kept rows does not see the selection. -/
theorem filter_selected {p : AlignedRow → Bool} (hp : ∀ r, p r = true → v.keeps screenLimits rows r = true)
    (l : List AlignedRow) : (l.filter (v.keeps screenLimits rows)).filter p = l.filter p := by
  rw [List.filter_filter]
  apply List.filter_congr
  intro r _
  by_cases h : p r = true
  · simp [h, hp r h]
  · simp [h]

theorem visible_left :
    (visibleSource v rows).filter (fun r => decide (r.axisValue < v.start)) = leftNeighbor v rows := by
  have hi : (insideRows v rows).filter (fun r => decide (r.axisValue < v.start)) = [] := filter_none fun r hr => by
    have := (contains_iff.mp (mem_insideRows hr).2).1
    simp; omega
  have hl : (leftNeighbor v rows).filter (fun r => decide (r.axisValue < v.start)) = leftNeighbor v rows :=
    filter_all fun r hr => by simpa using (mem_leftNeighbor hr).2
  have hr : (rightNeighbor v rows).filter (fun r => decide (r.axisValue < v.start)) = [] :=
    filter_none fun r hr => by
    have := (mem_rightNeighbor hr).2
    have := v.ordered
    simp; omega
  simp only [visibleSource, List.filter_append, hi, hl, hr, List.nil_append, List.append_nil]

theorem visible_right :
    (visibleSource v rows).filter (fun r => decide (v.stop < r.axisValue)) = rightNeighbor v rows := by
  have hi : (insideRows v rows).filter (fun r => decide (v.stop < r.axisValue)) = [] := filter_none fun r hr => by
    have := (contains_iff.mp (mem_insideRows hr).2).2
    simp; omega
  have hl : (leftNeighbor v rows).filter (fun r => decide (v.stop < r.axisValue)) = [] := filter_none fun r hr => by
    have := (mem_leftNeighbor hr).2
    have := v.ordered
    simp; omega
  have hr : (rightNeighbor v rows).filter (fun r => decide (v.stop < r.axisValue)) = rightNeighbor v rows :=
    filter_all fun r hr => by simpa using (mem_rightNeighbor hr).2
  simp only [visibleSource, List.filter_append, hi, hl, hr, List.nil_append]

theorem visible_inside : (visibleSource v rows).filter v.contains = insideRows v rows := by
  have hl : (leftNeighbor v rows).filter v.contains = [] :=
    filter_none fun r hr => left_not_contained (mem_leftNeighbor hr).2
  have hr : (rightNeighbor v rows).filter v.contains = [] :=
    filter_none fun r hr => right_not_contained (mem_rightNeighbor hr).2
  have hi : (insideRows v rows).filter v.contains = insideRows v rows :=
    filter_all fun r hr => (mem_insideRows hr).2
  simp only [visibleSource, List.filter_append, hl, hr, hi, List.append_nil]

section
variable {p : AlignedMetricPoint → Bool} {q : AlignedRow → Bool} (hpq : ∀ r, p r.point = q r)
include hpq

theorem filter_pointsOf (l : List AlignedRow) : (pointsOf l).filter p =
    ((orderBy (fun r : AlignedRow => r.row.step) l).filter q).map AlignedRow.point := by
  unfold pointsOf
  rw [List.filter_map]
  congr 1
  exact List.filter_congr fun r _ => hpq r

theorem length_filter_pointsOf (l : List AlignedRow) : ((pointsOf l).filter p).length = (l.filter q).length := by
  rw [filter_pointsOf hpq, List.length_map]
  exact ((orderBy_perm _ l).filter q).length_eq

variable (hp : ∀ r, p (v.returned screenLimits r).point = p r.point) (hn : (rows.map fun r => r.row.step).Nodup)
include hp hn

/-- A filter that sees no value passes the points of the rows that it passes. -/
theorem filter_pointsOf_selected : (pointsOf (selectedRows v screenLimits rows)).filter p =
    (((orderBy (fun r : AlignedRow => r.row.step) (visibleSource v rows)).filter (v.keeps screenLimits rows)).filter
      q).map fun r => (v.returned screenLimits r).point := by
  rw [pointsOf_selected hn, List.filter_map]
  congr 1
  exact List.filter_congr fun r _ => (hp r).trans (hpq r)

/-- Points of rows that are always kept are in every selection alike. -/
theorem filter_pointsOf_kept (hq : ∀ r, q r = true → v.keeps screenLimits rows r = true) :
    List.Forall₂ AlignedMetricPoint.Same ((pointsOf (selectedRows v screenLimits rows)).filter p)
      ((pointsOf (visibleSource v rows)).filter p) := by
  rw [filter_pointsOf_selected hpq hp hn, filter_pointsOf hpq, filter_selected hq]
  exact forall₂_map (returned_same screenLimits) _

end

theorem covers_returned (r : AlignedRow) : v.covers (v.returned screenLimits r).point = v.covers r.point := by
  unfold AlignmentViewport.covers
  rw [(returned_same screenLimits r).axisValue]

section
variable (hn : (rows.map fun r => r.row.step).Nodup)
include hn

theorem filter_selected_inside : (pointsOf (selectedRows v screenLimits rows)).filter v.covers =
    (((orderBy (fun r : AlignedRow => r.row.step) (visibleSource v rows)).filter v.contains).filter
      (v.keeps screenLimits rows)).map fun r => (v.returned screenLimits r).point := by
  rw [filter_pointsOf_selected (q := v.contains) (fun _ => rfl) covers_returned hn, List.filter_comm]

theorem length_selected_inside : ((pointsOf (selectedRows v screenLimits rows)).filter v.covers).length =
    ((insideRows v rows).filter (v.keeps screenLimits rows)).length := by
  rw [filter_selected_inside hn, List.length_map, ← visible_inside]
  exact (((orderBy_perm _ _).filter _).filter _).length_eq

theorem selected_shape {bucketCount maxPoints : Nat} (h : (pointsOf (visibleSource v rows)).filter v.covers ≠ []) :
    KeepsShape AlignedMetricPoint.Same (fun p : AlignedMetricPoint => toLex (p.axisValue, p.point.step))
      (fun p => p.point.valueF64) ((pointsOf (visibleSource v rows)).filter v.covers)
      ((pointsOf (selectedRows v (some (bucketCount, maxPoints)) rows)).filter v.covers) := by
  have hcovers : ∀ r : AlignedRow, v.covers r.point = v.contains r := fun _ => rfl
  have hinside : insideRows v rows ≠ [] := by
    intro e
    apply h
    rw [← List.length_eq_zero_iff, length_filter_pointsOf hcovers, visible_inside, e]; rfl
  rw [filter_pointsOf hcovers, filter_selected_inside hn]
  have hshape := inside_keepsShape bucketCount maxPoints hinside
  apply KeepsShape.map _ AlignedRow.point (fun r => (v.returned (some (bucketCount, maxPoints)) r).point)
    (returned_same _) (fun _ => rfl) (fun r => by simp [AlignedRow.point, MetricPointRow.point]) (fun _ => rfl)
    (fun r => returned_key _ r)
  apply (hshape.mono fun r hr => ?_).reorder
  · intro r
    rw [List.mem_filter, mem_orderBy, ← visible_inside, List.mem_filter]
  · rw [← keeps_inside, ← visible_inside, List.mem_filter, List.mem_filter] at hr
    rw [List.mem_filter, List.mem_filter, mem_orderBy]
    exact hr

theorem selected_reduction {maxPoints : Nat} (hm : extremaPerBucket ≤ maxPoints) (count : Nat)
    (reasons : List AlignmentReason) :
    AlignedReduction v maxPoints ⟨pointsOf (visibleSource v rows), count, reasons⟩
      ⟨pointsOf (selectedRows v (some (max (maxPoints / extremaPerBucket) 1, maxPoints)) rows), count,
        reasons⟩ := by
  constructor
  · rw [pointsOf_selected hn]
    exact sublistForall₂_map (returned_same _) List.filter_sublist
  · simp only [pointsOf_selected hn, List.pairwise_map]
    exact ((orderBy_strict _ (visible_steps hn)).filter _).imp fun h => by
      simpa [AlignedRow.point, MetricPointRow.point]
  · rw [length_selected_inside hn, keeps_inside]
    exact length_insideSelected ((List.filter_sublist.map _).nodup hn) (bucketCount_pos _) (bucketCount_le hm)
  · refine ⟨filter_pointsOf_kept (q := fun r => decide (r.axisValue < v.start)) (fun _ => rfl)
      (fun r => by unfold AlignmentViewport.isLeft; rw [(returned_same _ r).axisValue]) hn fun r hr =>
        keeps_left (by simpa using hr), ?_⟩
    rw [length_filter_pointsOf (q := fun r => decide (r.axisValue < v.start)) fun _ => rfl, visible_left]
    exact length_leftNeighbor hn
  · refine ⟨filter_pointsOf_kept (q := fun r => decide (v.stop < r.axisValue)) (fun _ => rfl)
      (fun r => by unfold AlignmentViewport.isRight; rw [(returned_same _ r).axisValue]) hn fun r hr =>
        keeps_right (by simpa using hr), ?_⟩
    rw [length_filter_pointsOf (q := fun r => decide (v.stop < r.axisValue)) fun _ => rfl, visible_right]
    exact length_rightNeighbor hn
  · exact fun h => selected_shape hn h
  · rfl

end

end

theorem aligned_screen_sound {full screen : AlignmentQueryResult} {budget : AlignmentScreenBudget}
    (hfull : queryAlignedMetric accepts source { query with reduction := .full } axis = .ok full)
    (hscreen : queryAlignedMetric accepts source { query with reduction := .screenBudget budget } axis =
      .ok screen) :
    AlignedReduction query.viewport (screenPoints budget.pixelWidth budget.pointsPerPixel) full screen := by
  rw [aligned_of_full hfull] at hscreen
  obtain ⟨-, -, rfl⟩ := queryAlignedMetric_ok_iff.mp hfull
  cases hscreen
  exact selected_reduction (orderedRows_steps source axis query) (le_screenPoints ..) _ _

end

end Pulseon
