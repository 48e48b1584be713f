import Pulseon.Queries

/-!
# What the effective query returns

Both sources rank the rows of a point by `(ingested_at, tie-breaker)`, with a
tie-breaker that no two rows share. A filter on what identifies a point selects
among the greatest rows, one for each step, and the order of the rows in the
relation matters through the tie-breaker only.
-/

namespace Pulseon

/-- The row of its point with the greatest `(ingested_at, tie-breaker)`. -/
def Greatest {ι : Type*} [LinearOrder ι] (relation : List (MetricPointRow × ι)) (row : MetricPointRow) : Prop :=
  ∃ tie, (row, tie) ∈ relation ∧ ∀ other ∈ relation, other.1.pointId = row.pointId →
    toLex (other.1.ingestedAt, other.2) ≤ toLex (row.ingestedAt, tie)

def MetricSource.Greatest : MetricSource → MetricPointRow → Prop
  | .project points, row => Pulseon.Greatest points.zipIdx row
  | .parquet files, row => Pulseon.Greatest files.relation row

def MetricPointRow.point (row : MetricPointRow) : MetricPoint :=
  ⟨row.runId, row.metricKey, row.step, row.timestamp, row.valueF64, row.ingestedAt⟩

/-! ## Ranking with a tie-breaker -/

section
variable {ι : Type*} [LinearOrder ι] {relation : List (MetricPointRow × ι)} {p : MetricPointRow → Bool}

theorem latestFirst_iff (y x : MetricPointRow × ι) :
    latestFirst y x = true ↔ toLex (x.1.ingestedAt, x.2) < toLex (y.1.ingestedAt, y.2) := by
  simp [latestFirst, Prod.Lex.toLex_lt_toLex]

theorem mem_effectiveOf {row : MetricPointRow} : row ∈ effectiveOf relation p ↔
    ∃ tie, (row, tie) ∈ relation ∧ p row = true ∧ ∀ other ∈ relation, p other.1 = true →
      other.1.pointId = row.pointId → toLex (other.1.ingestedAt, other.2) ≤ toLex (row.ingestedAt, tie) := by
  have hmem : ∀ r : MetricPointRow × ι, r ∈ firstRanked (fun r => r.1.pointId) latestFirst
    (relation.filter fun r => p r.1) ↔
      (r ∈ relation ∧ p r.1 = true) ∧ ∀ other ∈ relation, p other.1 = true → other.1.pointId = r.1.pointId →
        toLex (other.1.ingestedAt, other.2) ≤ toLex (r.1.ingestedAt, r.2) := by
    intro r
    rw [mem_firstRanked]
    simp only [List.mem_filter, and_imp]
    refine and_congr_right fun _ => forall_congr' fun other => forall_congr' fun _ => forall_congr' fun _ =>
      forall_congr' fun _ => ?_
    rw [Bool.eq_false_iff, ne_eq, latestFirst_iff, not_lt]
  unfold effectiveOf
  rw [List.mem_map]
  constructor
  · rintro ⟨⟨x, tie⟩, hx, rfl⟩
    obtain ⟨⟨hr, hp⟩, hall⟩ := (hmem _).mp hx
    exact ⟨tie, hr, hp, hall⟩
  · rintro ⟨tie, hr, hp, hall⟩
    exact ⟨(row, tie), (hmem _).mpr ⟨⟨hr, hp⟩, hall⟩, rfl⟩

theorem effectiveOf_nodup (hn : (relation.map Prod.snd).Nodup) :
    ((effectiveOf relation p).map MetricPointRow.pointId).Nodup := by
  unfold effectiveOf
  rw [List.map_map]
  have hr : relation.Nodup := List.Nodup.of_map _ hn
  refine firstRanked_nodup (fun r : MetricPointRow × ι => r.1.pointId) (hr.filter _) ?_
  intro x hx y hy hxy _
  have hne : toLex (x.1.ingestedAt, x.2) ≠ toLex (y.1.ingestedAt, y.2) := by
    intro e
    have htie : x.2 = y.2 := (Prod.mk.inj (toLex.injective e)).2
    exact hxy (List.inj_on_of_nodup_map hn (List.mem_filter.mp hx).1 (List.mem_filter.mp hy).1 htie)
  rw [latestFirst_iff, latestFirst_iff]
  exact hne.lt_or_gt.symm

end

/-! ## The two sources -/

theorem effectiveWhere_eq (points : List MetricPointRow) (p : MetricPointRow → Bool) :
    effectiveWhere points p = effectiveOf points.zipIdx p := rfl

theorem parquet_ties (p : ParquetFiles) : (p.relation.map Prod.snd).Nodup := by
  unfold ParquetFiles.relation
  rw [List.map_flatMap]
  rw [List.nodup_flatMap]
  refine ⟨fun file _ => ?_, ?_⟩
  · rw [List.map_map]
    refine List.Nodup.of_map (fun t => (ofLex t).2) ?_
    rw [List.map_map]
    show (file.2.zipIdx.map fun r => r.2).Nodup
    have : file.2.zipIdx.map (fun r => r.2) = List.range file.2.length := by
      simp [List.range_eq_range']
    rw [this]; exact List.nodup_range
  · have hd := p.distinct
    rw [List.Nodup, List.pairwise_map] at hd
    refine hd.imp fun {a b} hab => ?_
    intro t ht hb
    simp only [List.mem_map, List.map_map] at ht hb
    obtain ⟨x, -, rfl⟩ := ht
    obtain ⟨y, -, hy⟩ := hb
    exact hab (Prod.mk.inj (toLex.injective hy)).1.symm

theorem source_relation (source : MetricSource) : ∃ (ι : Type) (_ : LinearOrder ι)
    (relation : List (MetricPointRow × ι)), (relation.map Prod.snd).Nodup ∧ relation.map Prod.fst = source.points ∧
      (∀ p, source.effective p = effectiveOf relation p) ∧ ∀ row, source.Greatest row ↔ Greatest relation row := by
  cases source with
  | project points =>
    refine ⟨Nat, inferInstance, points.zipIdx, ?_, ?_, effectiveWhere_eq points, fun _ => Iff.rfl⟩
    · have : points.zipIdx.map Prod.snd = List.range points.length := by simp [List.range_eq_range']
      rw [this]; exact List.nodup_range
    · simp [MetricSource.points]
  | parquet files =>
    refine ⟨String ×ₗ Nat, inferInstance, files.relation, parquet_ties files, ?_, fun _ => rfl, fun _ => Iff.rfl⟩
    simp only [ParquetFiles.relation, MetricSource.points, List.map_flatMap, List.map_map]
    congr 1
    funext file
    show file.2.zipIdx.map (fun r => r.1) = file.2
    simp

/-! ## The rows of a query -/

section
variable {source : MetricSource} {query : MetricQuery}

theorem effectiveRows_clause {row : MetricPointRow} (h : row ∈ source.effectiveRows query) : row ∈ source.points ∧
    effectiveClause query.runId query.metricKey query.startStep query.endStep row = true := by
  obtain ⟨ι, _, relation, -, hpoints, heff, -⟩ := source_relation source
  unfold MetricSource.effectiveRows at h
  rw [heff, mem_effectiveOf] at h
  obtain ⟨tie, hmem, hp, -⟩ := h
  exact ⟨hpoints ▸ List.mem_map.mpr ⟨_, hmem, rfl⟩, hp⟩

theorem effectiveRows_steps (source : MetricSource) (query : MetricQuery) :
    ((source.effectiveRows query).map fun row => row.step).Nodup := by
  obtain ⟨ι, _, relation, hties, -, heff, -⟩ := source_relation source
  have hid : (source.effectiveRows query).map MetricPointRow.pointId =
      ((source.effectiveRows query).map fun row => row.step).map fun n => (query.runId, query.metricKey, n) := by
    rw [List.map_map]
    refine List.map_congr_left fun row hrow => ?_
    have hc := (effectiveRows_clause hrow).2
    simp only [effectiveClause, Bool.and_eq_true, beq_iff_eq] at hc
    simp [MetricPointRow.pointId, hc.1.1.1.1, hc.1.1.1.2]
  refine List.Nodup.of_map (fun n => (query.runId, query.metricKey, n)) ?_
  rw [← hid]
  unfold MetricSource.effectiveRows
  rw [heff]
  exact effectiveOf_nodup hties

end

/-! ## Reading the rows -/

section
variable {accepts : Int → Bool}

def Representable (accepts : Int → Bool) (row : MetricPointRow) : Prop :=
  accepts row.timestamp = true ∧ accepts row.ingestedAt = true

theorem intoMetricPoint_ok {row : MetricPointRow} (h : Representable accepts row) :
    intoMetricPoint accepts row = .ok row.point := by
  simp [intoMetricPoint, timestampFromMillis, h.1, h.2, MetricPointRow.point, pure, Except.pure, bind, Except.bind]

theorem readRows_ok {rows : List (MetricPointRow × Nat)} (h : ∀ r ∈ rows, Representable accepts r.1)
    (result : MetricQueryResult) : readRows accepts rows result =
      .ok ⟨result.points ++ rows.map fun r =>
        r.1.point, ((rows.getLast?).map Prod.snd).getD result.sourceRowCount⟩ := by
  induction rows generalizing result with
  | nil => simp [readRows]
  | cons r rows ih =>
    obtain ⟨row, count⟩ := r
    simp only [readRows, intoMetricPoint_ok (h _ (List.mem_cons_self ..)), bind, Except.bind]
    rw [ih fun r hr => h r (List.mem_cons_of_mem _ hr)]
    cases hl : rows.getLast? with
    | none => simp [List.getLast?_eq_none_iff.mp hl]
    | some last => simp [List.getLast?_cons, hl]

theorem executeQuery_ok {rows : List MetricPointRow} (h : ∀ row ∈ rows, Representable accepts row) {count : Nat}
    (hc : rows = [] → count = 0) : executeQuery accepts (countedRows count rows) =
      .ok ⟨(orderBy (fun row => row.step) rows).map MetricPointRow.point, count⟩ := by
  unfold executeQuery countedRows
  rw [readRows_ok fun r hr => ?_]
  · cases hrows : orderBy (fun row : MetricPointRow => row.step) rows with
    | nil =>
      simp [hc ((orderBy_eq_nil _).mp hrows)]
    | cons row rest => simp [List.getLast?_cons]
  · obtain ⟨row, hrow, rfl⟩ := List.mem_map.mp hr
    exact h row ((mem_orderBy _).mp hrow)

end

/-! ## The meaning of the effective query -/

section
variable {accepts : Int → Bool} {extension : LttbExtension} {source : MetricSource} {query : MetricQuery}

def MetricQuery.Identified (query : MetricQuery) : Prop := blank query.runId = false ∧ blank query.metricKey = false

theorem queryMetric_full (hid : query.Identified) (hfull : query.reduction = .full) :
    queryMetric accepts extension source query = executeQuery accepts (fullRows source query) := by
  simp [queryMetric, hid.1, hid.2, hfull]

theorem fullRows_ok (ha : ∀ row ∈ source.points, Representable accepts row) :
    executeQuery accepts (fullRows source query) =
      .ok ⟨(orderBy (fun row => row.step) (source.effectiveRows query)).map MetricPointRow.point,
        countEffective source query⟩ :=
  executeQuery_ok (fun row hrow => ha row (effectiveRows_clause hrow).1) fun h => by rw [h]; rfl

end

/-- A connection that cannot load the extension. -/
def unavailableLttb : LttbExtension := ⟨.error (.lttbExtensionUnavailable "lttb"), fun _ _ => []⟩

end Pulseon
