import Pulseon.Aggregates

/-!
# Stored and live aggregates are the same

The three queries rank the rows of a run, of a metric key or of a table, and
group and aggregate them in their own words; for one run and key they agree, and
depend on the rows of that run only.
-/

namespace Pulseon

/-! ## Effective rows -/

section
variable (points : List MetricPointRow) (p q : MetricPointRow → Bool)

/-- A filter on what identifies a point commutes with the ranking. -/
theorem effectiveWhere_filter (hq : ∀ x y : MetricPointRow, x.pointId = y.pointId → q x = q y) :
    (effectiveWhere points p).filter q = effectiveWhere points fun row => p row && q row := by
  have hcomm := firstRanked_filter (fun r : MetricPointRow × Nat => r.1.pointId)
    (newestFirst fun row : MetricPointRow => row.ingestedAt) (fun r => q r.1) (fun x y h => hq x.1 y.1 h)
    (points.zipIdx.filter fun r => p r.1)
  unfold effectiveWhere
  rw [List.filter_map, show (q ∘ Prod.fst) = fun r : MetricPointRow × Nat => q r.1 from rfl, ← hcomm,
    List.filter_filter]
  congr 2
  exact List.filter_congr fun r _ => Bool.and_comm ..

theorem effectiveWhere_append {rows : List MetricPointRow} (h : ∀ row ∈ rows, p row = false) :
    effectiveWhere (points ++ rows) p = effectiveWhere points p := by
  unfold effectiveWhere
  rw [List.zipIdx_append, List.filter_append]
  have hnone : ((rows.zipIdx (0 + points.length)).filter fun r => p r.1) = [] := by
    rw [List.filter_eq_nil_iff]
    rintro ⟨row, i⟩ hr
    rw [h row (List.fst_mem_of_mem_zipIdx hr)]
    exact Bool.false_ne_true
  rw [hnone, List.append_nil]

theorem mem_of_mem_effectiveWhere {row : MetricPointRow} (h : row ∈ effectiveWhere points p) :
    row ∈ points ∧ p row = true := by
  obtain ⟨⟨x, i⟩, hx, rfl⟩ := List.mem_map.mp h
  obtain ⟨hm, hp⟩ := List.mem_filter.mp ((mem_firstRanked _ _).mp hx).1
  exact ⟨List.fst_mem_of_mem_zipIdx hm, hp⟩

end

/-- The query on one series and the one on a run agree on the series. -/
theorem effectiveCte_eq {points : List MetricPointRow} (he : Encoded points) (r : RunId) (k : MetricKey) :
    effectiveCte points r k none none =
      (effectiveWhere points fun row => row.runId == r).filter fun row => row.metricKey == k := by
  rw [effectiveWhere_filter points _ _ (fun x y h => by rw [(Prod.mk.inj (Prod.mk.inj h).2).1])]
  unfold effectiveCte effectiveWhere
  congr 2
  refine List.filter_congr fun ⟨row, i⟩ hr => ?_
  have hrow := he row (List.fst_mem_of_mem_zipIdx hr)
  unfold effectiveClause
  rw [hrow]
  by_cases hk : row.metricKey = k
  · simp [hk]
  · simp [hk]

/-! ## Groups -/

section
variable (ties : Ties) (lastStep : List MetricPointRow → Option Int)

theorem argMax_spec {stamp : MetricPointRow → Int} {rows : List MetricPointRow} {row : MetricPointRow}
    (h : argMax stamp rows = some row) : row ∈ rows ∧ ∀ x ∈ rows, stamp x ≤ stamp row := by
  obtain ⟨i, hi, -, hall⟩ := newest_spec stamp h
  refine ⟨List.mem_of_getElem? hi, fun x hx => ?_⟩
  obtain ⟨j, hj⟩ := List.getElem?_of_mem hx
  rcases hall j x hj rfl with hlt | ⟨heq, -⟩
  · omega
  · omega

theorem argMax_eq_none {stamp : MetricPointRow → Int} {rows : List MetricPointRow} :
    argMax stamp rows = none ↔ rows = [] := by
  unfold argMax
  rw [newest_none]
  constructor
  · intro h
    cases rows with
    | nil => rfl
    | cons x rows => exact absurd (h x (List.mem_cons_self ..)) (by simp)
  · rintro rfl; nofun

theorem extreme_mem {stamp : MetricPointRow → Int} {choice : Nat} {rows : List MetricPointRow}
    {row : MetricPointRow}
    (h : extreme stamp choice rows = some row) : row ∈ rows ∧ ∀ x ∈ rows, stamp x ≤ stamp row := by
  obtain ⟨hrow, hall⟩ := List.mem_filter.mp (List.mem_of_getElem? h)
  exact ⟨hrow, by simpa using hall⟩

/-- Every choice has a row to take, where there is one. -/
theorem extreme_some (stamp : MetricPointRow → Int) (choice : Nat) {rows : List MetricPointRow} (h : rows ≠ []) :
    ∃ row, extreme stamp choice rows = some row := by
  obtain ⟨best, hbest⟩ := Option.ne_none_iff_exists'.mp fun e : argMax stamp rows = none => h (argMax_eq_none.mp e)
  obtain ⟨hmem, hall⟩ := argMax_spec hbest
  have hin : best ∈ rows.filter fun x => rows.all fun y => decide (stamp y ≤ stamp x) :=
    List.mem_filter.mpr ⟨hmem, by simpa using hall⟩
  exact ⟨_, List.getElem?_eq_getElem (Nat.mod_lt _ (List.length_pos_of_mem hin))⟩

theorem maxStep_eq (rows : List MetricPointRow) : maxStep rows = argMaxStep rows := by
  unfold maxStep argMaxStep
  cases h : argMax MetricPointRow.step rows with
  | none => rw [argMax_eq_none.mp h]; rfl
  | some row =>
    obtain ⟨hmem, hall⟩ := argMax_spec h
    rw [Option.map_some, List.max?_eq_some_iff]
    refine ⟨List.mem_map_of_mem hmem, fun b hb => ?_⟩
    obtain ⟨x, hx, rfl⟩ := List.mem_map.mp hb
    exact hall x hx

theorem aggregateOf_maxStep : aggregateOf ties maxStep = aggregateOf ties argMaxStep := by
  funext r k rows
  unfold aggregateOf
  rw [maxStep_eq]

theorem aggregateOf_key {r : RunId} {k : MetricKey} {rows : List MetricPointRow} {a : MetricAggregate}
    (h : aggregateOf ties lastStep r k rows = some a) : a.runId = r ∧ a.metricKey = k := by
  simp only [aggregateOf, Option.pure_def, Option.bind_eq_bind, Option.bind_eq_some_iff] at h
  obtain ⟨_, -, _, -, _, -, _, -, he⟩ := h
  cases he; exact ⟨rfl, rfl⟩

@[simp] theorem aggregateOf_nil (r : RunId) (k : MetricKey) : aggregateOf ties argMaxStep r k [] = none := rfl

/-- The rows of one group of the aggregates. -/
theorem groupAggregates_filter (rows : List MetricPointRow) (r : RunId) (k : MetricKey)
    (hnil : aggregateOf ties lastStep r k [] = none) :
    (groupAggregates ties lastStep rows).filter (fun a => a.runId == r && a.metricKey == k) =
      (aggregateOf ties lastStep r k (rows.filter fun row => row.runId == r && row.metricKey == k)).toList := by
  refine filter_filterMap_dedup _ _ (r, k) ?_ ?_
  · rintro ⟨r', k'⟩ - a ha
    obtain ⟨hr, hk⟩ := aggregateOf_key ties lastStep ha
    simp [hr, hk]
  · intro hn
    have hempty : (rows.filter fun row => row.runId == r && row.metricKey == k) = [] := by
      rw [List.filter_eq_nil_iff]
      intro row hrow hc
      simp only [Bool.and_eq_true, beq_iff_eq] at hc
      exact hn (List.mem_map.mpr ⟨row, hrow, by rw [hc.1, hc.2]⟩)
    dsimp only
    rw [hempty]; exact hnil

theorem groupAggregates_runId {rows : List MetricPointRow} {r : RunId} (hr : ∀ row ∈ rows, row.runId = r)
    {a : MetricAggregate} (ha : a ∈ groupAggregates ties lastStep rows) : a.runId = r := by
  obtain ⟨⟨r', k'⟩, hg, he⟩ := List.mem_filterMap.mp ha
  obtain ⟨row, hrow, hkey⟩ := List.mem_map.mp (List.mem_dedup.mp hg)
  rw [(aggregateOf_key ties lastStep he).1, ← hr row hrow]
  exact (Prod.mk.inj hkey).1.symm

end

/-! ## Rebuilt aggregates -/

/-- The aggregate is the count, the last step and its value, the minimum and the
maximum of the series. -/
structure MetricAggregate.Summarises (a : MetricAggregate) (series : List MetricPointRow) : Prop where
  count : a.effectiveCount = series.length
  last : ∃ row ∈ series, a.lastStep = row.step ∧ a.lastValueF64 = row.valueF64 ∧
    ∀ x ∈ series, x.step ≤ row.step
  least : ∃ row ∈ series, a.minValueF64 = row.valueF64 ∧ ∀ x ∈ series, row.valueF64.key ≤ x.valueF64.key
  greatest : ∃ row ∈ series, a.maxValueF64 = row.valueF64 ∧ ∀ x ∈ series, x.valueF64.key ≤ row.valueF64.key

section
variable (ties : Ties)

theorem aggregateOf_some {r : RunId} {k : MetricKey} {rows : List MetricPointRow} (h : rows ≠ []) :
    ∃ last least greatest, argMax MetricPointRow.step rows = some last ∧
      extreme (fun row => -row.valueF64.key) (ties.least r k) rows = some least ∧
      extreme (fun row => row.valueF64.key) (ties.greatest r k) rows = some greatest ∧
      aggregateOf ties argMaxStep r k rows = some
        ⟨r, k, rows.length, last.step, last.valueF64, least.valueF64, greatest.valueF64⟩ := by
  obtain ⟨last, hlast⟩ := Option.ne_none_iff_exists'.mp fun e : argMax MetricPointRow.step rows = none =>
    h (argMax_eq_none.mp e)
  obtain ⟨least, hleast⟩ := extreme_some (fun row => -row.valueF64.key) (ties.least r k) h
  obtain ⟨greatest, hgreatest⟩ := extreme_some (fun row => row.valueF64.key) (ties.greatest r k) h
  refine ⟨last, least, greatest, hlast, hleast, hgreatest, ?_⟩
  simp [aggregateOf, argMaxStep, hlast, hleast, hgreatest]

theorem aggregateOf_cases (r : RunId) (k : MetricKey) (rows : List MetricPointRow) :
    rows = [] ∧ aggregateOf ties argMaxStep r k rows = none ∨
      ∃ a, aggregateOf ties argMaxStep r k rows = some a ∧ a.runId = r ∧ a.metricKey = k ∧ a.Summarises rows := by
  by_cases h : rows = []
  · exact Or.inl ⟨h, by rw [h, aggregateOf_nil]⟩
  · obtain ⟨last, least, greatest, hlast, hleast, hgreatest, ha⟩ := aggregateOf_some ties (r := r) (k := k) h
    obtain ⟨hl, hlall⟩ := argMax_spec hlast
    obtain ⟨hm, hmall⟩ := extreme_mem hleast
    obtain ⟨hg, hgall⟩ := extreme_mem hgreatest
    refine Or.inr ⟨_, ha, rfl, rfl, rfl, ⟨last, hl, rfl, rfl, hlall⟩, ⟨least, hm, rfl, fun x hx => ?_⟩,
      ⟨greatest, hg, rfl, hgall⟩⟩
    exact Int.neg_le_neg_iff.mp (hmall x hx)

theorem rebuiltAggregates_runId {points : List MetricPointRow} {r : RunId} {a : MetricAggregate}
    (ha : a ∈ rebuiltAggregates ties points r) : a.runId = r :=
  groupAggregates_runId ties _ (fun _ hrow => eq_of_beq (mem_of_mem_effectiveWhere points _ hrow).2) ha

theorem rebuiltAggregates_filter {points : List MetricPointRow} (he : Encoded points) (r : RunId)
    (k : MetricKey) : (rebuiltAggregates ties points r).filter (fun a => a.runId == r && a.metricKey == k) =
      (aggregateOf ties argMaxStep r k (effectiveCte points r k none none)).toList := by
  unfold rebuiltAggregates
  rw [groupAggregates_filter ties _ _ _ _ (aggregateOf_nil ties r k), effectiveCte_eq he]
  congr 2
  refine List.filter_congr fun row hrow => ?_
  rw [(mem_of_mem_effectiveWhere points _ hrow).2, Bool.true_and]

theorem rebuiltAggregates_append {points rows : List MetricPointRow} {r : RunId}
    (h : ∀ row ∈ rows, row.runId ≠ r) :
    rebuiltAggregates ties (points ++ rows) r = rebuiltAggregates ties points r := by
  unfold rebuiltAggregates
  rw [effectiveWhere_append]
  intro row hrow
  simpa using h row hrow

end

/-! ## Aggregates by different plans -/

/-- The aggregates are equal but for which of the equal values stands for the
least and the greatest. -/
structure MetricAggregate.Same (a b : MetricAggregate) : Prop where
  runId : a.runId = b.runId
  metricKey : a.metricKey = b.metricKey
  effectiveCount : a.effectiveCount = b.effectiveCount
  lastStep : a.lastStep = b.lastStep
  lastValueF64 : a.lastValueF64 = b.lastValueF64
  minValueF64 : a.minValueF64.key = b.minValueF64.key
  maxValueF64 : a.maxValueF64.key = b.maxValueF64.key

theorem MetricAggregate.Same.refl (a : MetricAggregate) : a.Same a := ⟨rfl, rfl, rfl, rfl, rfl, rfl, rfl⟩

theorem extreme_eq {stamp : MetricPointRow → Int} {choice choice' : Nat} {rows : List MetricPointRow}
    {x y : MetricPointRow} (hx : extreme stamp choice rows = some x) (hy : extreme stamp choice' rows = some y) :
    stamp x = stamp y := by
  obtain ⟨hxmem, hxall⟩ := extreme_mem hx
  obtain ⟨hymem, hyall⟩ := extreme_mem hy
  exact Int.le_antisymm (hyall x hxmem) (hxall y hymem)

section
variable (ties ties' : Ties)

theorem aggregateOf_same (r : RunId) (k : MetricKey) (rows : List MetricPointRow) :
    Option.Rel MetricAggregate.Same (aggregateOf ties argMaxStep r k rows)
      (aggregateOf ties' argMaxStep r k rows) := by
  by_cases h : rows = []
  · rw [h, aggregateOf_nil, aggregateOf_nil]
    exact .none
  · obtain ⟨last, least, greatest, hlast, hleast, hgreatest, ha⟩ := aggregateOf_some ties (r := r) (k := k) h
    obtain ⟨last', least', greatest', hlast', hleast', hgreatest', ha'⟩ :=
      aggregateOf_some ties' (r := r) (k := k) h
    have hsame : last = last' := Option.some.inj (hlast.symm.trans hlast')
    rw [ha, ha', hsame]
    exact .some
      ⟨rfl, rfl, rfl, rfl, rfl, Int.neg_inj.mp (extreme_eq hleast hleast'), extreme_eq hgreatest hgreatest'⟩

theorem groupAggregates_same (rows : List MetricPointRow) :
    List.Forall₂ MetricAggregate.Same (groupAggregates ties argMaxStep rows)
      (groupAggregates ties' argMaxStep rows) := by
  unfold groupAggregates
  refine List.rel_filterMap (R := Eq) ?_ (List.forall₂_refl _)
  rintro g - rfl
  exact aggregateOf_same ties ties' g.1 g.2 _

end

/-! ## Rows of one run -/

theorem filter_runId (runs : List Run) (r : RunId) (q : Run → Bool) :
    (runs.filter fun run => run.runId == r && q run) = (runs.filter fun run => run.runId == r).filter q := by
  rw [List.filter_filter]
  exact List.filter_congr fun x _ => Bool.and_comm ..

section
variable {points : List MetricPointRow} {aggregates : List MetricAggregate} {r : RunId}

theorem effectiveWhere_series (he : Encoded points) (k : MetricKey) (r : RunId) :
    ((effectiveWhere points fun row => row.metricKey == k).filter fun row => row.runId == r) =
      effectiveCte points r k none none := by
  rw [effectiveCte_eq he, effectiveWhere_filter points _ _ (fun x y h => by rw [(Prod.mk.inj h).1]),
    effectiveWhere_filter points _ _ (fun x y h => by rw [(Prod.mk.inj (Prod.mk.inj h).2).1])]
  congr 1
  funext row
  exact Bool.and_comm ..

/-! ## The two branches of the queries -/

/-- The summaries of one run by two plans. -/
theorem summariesOf_same (ties ties' : Ties) (runs : List Run) (k : MetricKey) :
    List.Forall₂ MetricAggregate.Same (summariesOf ties runs points aggregates k r)
      (summariesOf ties' runs points aggregates k r) := by
  unfold summariesOf
  rw [aggregateOf_maxStep, aggregateOf_maxStep]
  refine List.rel_append (List.forall₂_same.mpr fun a _ => .refl a) (forall₂_toList ?_)
  exact aggregateOf_same ties ties' r k _

variable {ties : Ties} (hagg : aggregates.filter (fun a => a.runId == r) = rebuiltAggregates ties points r)
include hagg

theorem stored_of_rebuilt (he : Encoded points) (k : MetricKey) :
    (aggregates.filter fun a => a.runId == r && a.metricKey == k) =
      (aggregateOf ties argMaxStep r k (effectiveCte points r k none none)).toList := by
  rw [← rebuiltAggregates_filter ties he, ← hagg, List.filter_filter]
  exact List.filter_congr fun a _ => by cases h : a.runId == r <;> simp

theorem listMetrics_terminal {st : RunStatus} (hst : st ≠ .running) (read read' : Ties) :
    List.Forall₂ MetricAggregate.Same (listMetrics read points aggregates r st)
      (listMetrics read' points aggregates r .running) := by
  have hstored : List.Forall₂ MetricAggregate.Same (aggregates.filter fun a => a.runId == r)
      (groupAggregates read' maxStep (effectiveWhere points fun row => row.runId == r)) := by
    have hrun : groupAggregates read' maxStep = groupAggregates read' argMaxStep := by
      funext rows
      unfold groupAggregates
      rw [aggregateOf_maxStep]
    rw [hagg, hrun]
    exact groupAggregates_same ties read' _
  have hordered :=
    forall₂_mergeSort (fun a b c d (hac : MetricAggregate.Same a c) (hbd : MetricAggregate.Same b d) =>
    show decide (a.metricKey ≤ b.metricKey) = decide (c.metricKey ≤ d.metricKey) by
      rw [hac.metricKey, hbd.metricKey]) hstored
  cases st with
  | running => exact absurd rfl hst
  | finished | failed => exact hordered

/-- A stored row of the run brings the same summaries, terminal or running. -/
theorem summariesOf_terminal (he : Encoded points) {runs running : List Run} {k : MetricKey} {run : Run}
    (hruns : runs.filter (fun x => x.runId == r) = [run]) (hst : run.status ≠ .running)
    (hrunning : running.filter (fun x => x.runId == r) = [{ run with status := .running }]) (read read' : Ties) :
    List.Forall₂ MetricAggregate.Same (summariesOf read runs points aggregates k r)
      (summariesOf read' running points aggregates k r) := by
  have hne : (run.status == .running) = false := by simpa using hst
  have hstored : summariesOf read runs points aggregates k r =
      (aggregateOf ties argMaxStep r k (effectiveCte points r k none none)).toList := by
    unfold summariesOf
    rw [filter_runId, filter_runId, hruns, aggregateOf_maxStep, stored_of_rebuilt hagg he]
    simp [hst, hne]
  have hlive : summariesOf read' running points aggregates k r =
      (aggregateOf read' argMaxStep r k (effectiveCte points r k none none)).toList := by
    unfold summariesOf
    rw [filter_runId, filter_runId, hrunning, aggregateOf_maxStep, effectiveWhere_series he]
    simp
  rw [hstored, hlive]
  exact forall₂_toList (aggregateOf_same ties read' r k _)

end

end Pulseon
