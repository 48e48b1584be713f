import Pulseon.DrainSound

/-!
# The effective value of what was reported

Appending a stamped batch changes the effective row of the points in the batch
only, and their last row in the batch becomes effective unless an older row
carries a greater stamp.
-/

namespace Pulseon

def MetricReport.pointId (r : MetricReport) : PointId := (r.runId, r.metricKey, r.step)

/-- The last of the reports for a point. -/
def lastReport (reports : List MetricReport) (id : PointId) : Option MetricReport :=
  (reports.filter fun r => decide (r.pointId = id)).getLast?

/-- The effective value of the point is that of the last report for it. -/
def Shows (points : List MetricPointRow) (reports : List MetricReport) (id : PointId) : Prop :=
  ∀ r, lastReport reports id = some r →
    (effectiveRow points id).map MetricPointRow.valueF64 = some r.valueF64

theorem RowOf.pointId {row : MetricPointRow} {r : MetricReport} (h : RowOf row r) :
    row.pointId = r.pointId ∧ row.valueF64 = r.valueF64 := by
  rw [h]; exact ⟨rfl, rfl⟩

theorem RowOf.mem {rows : List MetricPointRow} {reports : List MetricReport}
    (h : List.Forall₂ RowOf rows reports) {row : MetricPointRow} (hrow : row ∈ rows) :
    ∃ r ∈ reports, RowOf row r := by
  induction h with
  | nil => cases hrow
  | cons hr _ ih =>
    rcases List.mem_cons.mp hrow with rfl | hrow
    · exact ⟨_, List.mem_cons_self .., hr⟩
    · obtain ⟨r, hm, hr⟩ := ih hrow
      exact ⟨r, List.mem_cons_of_mem _ hm, hr⟩

theorem RowOf.encoded {rows : List MetricPointRow} {reports : List MetricReport}
    (h : List.Forall₂ RowOf rows reports) : Encoded rows := by
  intro row hrow
  obtain ⟨r, -, hr⟩ := RowOf.mem h hrow
  rw [hr]; rfl

/-! ## Last reports -/

theorem lastReport_append (l m : List MetricReport) (id : PointId) :
    lastReport (l ++ m) id = (lastReport m id).or (lastReport l id) := by
  unfold lastReport
  rw [List.filter_append, List.getLast?_append]

theorem lastReport_none {l : List MetricReport} {id : PointId} :
    lastReport l id = none ↔ ∀ r ∈ l, r.pointId ≠ id := by
  unfold lastReport
  rw [List.getLast?_eq_none_iff, List.filter_eq_nil_iff]
  simp

theorem lastReport_some {l : List MetricReport} {id : PointId} {r : MetricReport} :
    lastReport l id = some r ↔ ∃ pre post, l = pre ++ r :: post ∧ r.pointId = id ∧
      ∀ r' ∈ post, r'.pointId ≠ id := by
  constructor
  · intro h
    unfold lastReport at h
    obtain ⟨init, hinit⟩ := List.getLast?_eq_some_iff.mp h
    obtain ⟨a, b, rfl, -, hb⟩ := List.filter_eq_append_iff.mp hinit
    obtain ⟨c, d, rfl, hc, hr, hd⟩ := List.filter_eq_cons_iff.mp hb
    refine ⟨a ++ c, d, by rw [List.append_assoc], by simpa using hr, ?_⟩
    simpa [List.filter_eq_nil_iff] using hd
  · rintro ⟨pre, post, rfl, hid, hpost⟩
    have hsingle : lastReport (r :: post) id = some r := by
      have hnone := lastReport_none.mpr hpost
      rw [← List.singleton_append, lastReport_append, hnone, Option.none_or]
      unfold lastReport
      simp [hid]
    rw [lastReport_append, hsingle, Option.some_or]

/-! ## Appending rows -/

theorem newestRow_append (l m : List MetricPointRow) (id : PointId) :
    newestRow (l ++ m) id = newer (fun row => row.ingestedAt) (newestRow l id) (newestRow m id) :=
  newest_append _ _ l m

theorem newestRow_none {l : List MetricPointRow} {id : PointId} :
    newestRow l id = none ↔ ∀ row ∈ l, row.pointId ≠ id := by
  unfold newestRow
  rw [newest_none]
  simp

/-- The value after an append is the appended row's, unless the old row is newer
and differs. -/
theorem newer_value {old row : MetricPointRow} :
    (newer (fun row : MetricPointRow => row.ingestedAt) (some old) (some row)).map MetricPointRow.valueF64 =
      some row.valueF64 ↔ old.ingestedAt ≤ row.ingestedAt ∨ old.valueF64 = row.valueF64 := by
  unfold newer
  by_cases h : row.ingestedAt < old.ingestedAt
  · have : ¬ old.ingestedAt ≤ row.ingestedAt := by omega
    simp [h, this]
  · have : old.ingestedAt ≤ row.ingestedAt := by omega
    simp [h, this]

theorem newestRow_rows {rows : List MetricPointRow} {reports : List MetricReport}
    (h : List.Forall₂ RowOf rows reports) (hp : rows.Pairwise fun x y => x.ingestedAt < y.ingestedAt)
    (id : PointId) : (newestRow rows id).map MetricPointRow.valueF64 =
      (lastReport reports id).map MetricReport.valueF64 := by
  unfold newestRow
  rw [newest_of_increasing _ _ hp]
  clear hp
  induction h with
  | nil => rfl
  | cons hr hrows ih =>
    obtain ⟨hid, hv⟩ := hr.pointId
    rename_i row r rows reports
    unfold lastReport at ih ⊢
    by_cases hq : r.pointId = id
    · simp only [List.filter_cons, hid, hq, decide_true, ite_true, List.getLast?_cons]
      cases hl : (rows.filter fun row => decide (row.pointId = id)).getLast? with
      | none =>
        rw [hl] at ih
        have := Option.map_eq_none_iff.mp ih.symm
        simp only [this, Option.getD_none, Option.map_some, hv]
      | some row' =>
        rw [hl] at ih
        obtain ⟨r', hr', hv'⟩ := Option.map_eq_some_iff.mp ih.symm
        simp only [hr', Option.getD_some, Option.map_some, hv']
    · simp only [List.filter_cons, hid, hq, decide_false, Bool.false_eq_true, ite_false]
      exact ih

/-! ## Appending a stamped batch -/

theorem stampBatch_append (a b : List MetricReport) (t : Int) :
    (stampBatch (a ++ b) t).1 = (stampBatch a t).1 ++ (stampBatch b (t + a.length)).1 := by
  induction a generalizing t with
  | nil => simp [stampBatch]
  | cons r rs ih =>
    simp only [List.cons_append, stampBatch, ih, List.length_cons]
    have : t + 1 + (rs.length : Int) = t + ((rs.length + 1 : Nat) : Int) := by omega
    rw [this]

theorem newestRow_batch {pre post : List MetricReport} {r : MetricReport}
    (hpost : ∀ r' ∈ post, r'.pointId ≠ r.pointId) (next now : Int) :
    newestRow (writeMetricBatch (pre ++ r :: post) next now).1 r.pointId =
      some (⟨r.runId, r.metricKey, r.step, r.timestampMillis, r.valueF64,
        max next now + pre.length⟩ : MetricWrite).row := by
  unfold newestRow
  rw [newest_of_increasing _ _ (writeMetricBatch_increasing _ next now)]
  have hnone : ((stampBatch post (max next now + pre.length + 1)).1.map MetricWrite.row).filter
      (fun row => decide (row.pointId = r.pointId)) = [] := by
    rw [List.filter_eq_nil_iff]
    intro row hrow
    obtain ⟨r', hr', hrow'⟩ := RowOf.mem (stampBatch_rows post _) hrow
    simpa [hrow'.pointId.1] using hpost r' hr'
  unfold writeMetricBatch
  simp only [stampBatch_append, stampBatch, List.map_append, List.map_cons, List.filter_append,
    List.filter_cons, hnone]
  simp [MetricWrite.row, MetricPointRow.pointId, MetricReport.pointId]

theorem newestRow_batch_none {batch : List MetricReport} {id : PointId} (h : ∀ r ∈ batch, r.pointId ≠ id)
    (next now : Int) : newestRow (writeMetricBatch batch next now).1 id = none := by
  have := newestRow_rows (writeMetricBatch_rows batch next now) (writeMetricBatch_increasing batch next now) id
  rw [lastReport_none.mpr h] at this
  exact Option.map_eq_none_iff.mp this

end Pulseon
