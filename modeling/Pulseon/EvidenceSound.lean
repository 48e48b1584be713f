import Pulseon.AggregatesSound
import Pulseon.Ranking

/-!
# The evidence of stored runs

With distinct run ids in the store, the evidence of a request is that of each
run by itself, in request order. A finished run is eligible with its last value,
which for a terminal run is the one that finalization stored: as long as its
aggregates are those of its series, the value at the greatest step.
-/

namespace Pulseon

namespace Store
variable (store : Store)

def series (metricKey : MetricKey) (runId : RunId) : List MetricPointRow :=
  (effectiveWhere store.points fun row => row.metricKey == metricKey).filter fun row => row.runId == runId

/-- The last effective value that the store has for a run. -/
def lastValue (metricKey : MetricKey) (run : Run) : Option F64 :=
  match run.status with
  | .running => (argMax MetricPointRow.step (store.series metricKey run.runId)).map MetricPointRow.valueF64
  | .finished | .failed =>
    (store.aggregates.filter fun a => a.runId == run.runId && a.metricKey == metricKey).getLast?.map
      MetricAggregate.lastValueF64

def evidenceOf (objective : ObjectiveMetric) (run : Run) : ObjectiveEvidence :=
  Pulseon.objectiveEvidence run.runId run.status
    (summariesOf (store.ties [run.runId] objective.metricKey) store.runs store.points store.aggregates
      objective.metricKey run.runId).getLast?

end Store

/-! ## Objective evidence -/

section
variable {runId : RunId} {runStatus : RunStatus} {aggregate : Option MetricAggregate}

theorem objectiveEvidence_lastValue :
    (objectiveEvidence runId runStatus aggregate).lastValueF64 = aggregate.map MetricAggregate.lastValueF64 := by
  cases aggregate with
  | none => rfl
  | some a =>
    unfold objectiveEvidence
    by_cases h : a.lastValueF64.isFinite = true <;> simp [h]

theorem objectiveEvidence_complete : (objectiveEvidence runId runStatus aggregate).completeness = .complete ↔
    runStatus = .finished ∧ ∃ a ∈ aggregate, a.lastValueF64.isFinite = true := by
  unfold objectiveEvidence
  cases aggregate with
  | none => cases runStatus <;> simp [qualifyLifecycle, lifecycleReason] <;> decide
  | some a =>
    by_cases h : a.lastValueF64.isFinite = true
    · cases runStatus <;> simp [qualifyLifecycle, lifecycleReason, h] <;> decide
    · cases runStatus <;> simp [qualifyLifecycle, lifecycleReason, h] <;> decide

/-- A run competes with its last value when it is finished and the value finite. -/
theorem eligibleValue_objectiveEvidence {value : F64} :
    eligibleValue (objectiveEvidence runId runStatus aggregate) = some value ↔
      runStatus = .finished ∧ aggregate.map MetricAggregate.lastValueF64 = some value ∧ value.isFinite = true := by
  unfold eligibleValue ObjectiveEvidence.usableValue
  rw [objectiveEvidence_lastValue]
  by_cases h : (objectiveEvidence runId runStatus aggregate).completeness = .complete
  · rw [if_pos h, Option.filter_eq_some_iff]
    simp [(objectiveEvidence_complete.mp h).1]
  · rw [if_neg h]
    simp only [reduceCtorEq, false_iff]
    rintro ⟨hst, hv, hfin⟩
    obtain ⟨a, ha, rfl⟩ := Option.map_eq_some_iff.mp hv
    exact h (objectiveEvidence_complete.mpr ⟨hst, a, ha, hfin⟩)

/-- Evidence is of the last value only. -/
theorem objectiveEvidence_same {a b : Option MetricAggregate} (h : Option.Rel MetricAggregate.Same a b) :
    objectiveEvidence runId runStatus a = objectiveEvidence runId runStatus b := by
  cases h with
  | none => rfl
  | some h =>
    simp only [objectiveEvidence, h.lastStep, h.lastValueF64]

end

/-! ## One run -/

section
variable {store : Store} {objective : ObjectiveMetric} {run : Run} (ties : Ties)

theorem summariesOf_runId {runs : List Run} {points : List MetricPointRow} {aggregates : List MetricAggregate}
    {k : MetricKey} {r : RunId} {a : MetricAggregate} (h : a ∈ summariesOf ties runs points aggregates k r) :
    a.runId = r := by
  unfold summariesOf at h
  rcases List.mem_append.mp h with h | h
  · obtain ⟨run, -, ha⟩ := List.mem_flatMap.mp h
    have := (List.mem_filter.mp ha).2
    simp only [Bool.and_eq_true, beq_iff_eq] at this
    exact this.1
  · exact (aggregateOf_key ties _ (Option.mem_toList.mp h)).1

theorem getLast?_toList {α : Type*} (o : Option α) : o.toList.getLast? = o := by
  cases o <;> rfl

theorem aggregateOf_lastValue (r : RunId) (k : MetricKey) (rows : List MetricPointRow) :
    (aggregateOf ties maxStep r k rows).map MetricAggregate.lastValueF64 =
      (argMax MetricPointRow.step rows).map MetricPointRow.valueF64 := by
  rw [aggregateOf_maxStep]
  by_cases h : rows = []
  · rw [h, aggregateOf_nil]; rfl
  · obtain ⟨last, _, _, hlast, -, -, ha⟩ := aggregateOf_some ties (r := r) (k := k) h
    rw [ha, hlast]; rfl

/-- A running run is summarised by its series, a terminal one by what is stored. -/
theorem summariesOf_of_mem (hn : (store.runs.map Run.runId).Nodup) (hrun : run ∈ store.runs) (k : MetricKey) :
    summariesOf ties store.runs store.points store.aggregates k run.runId =
      if run.status = .running then (aggregateOf ties maxStep run.runId k (store.series k run.runId)).toList
      else store.aggregates.filter fun a => a.runId == run.runId && a.metricKey == k := by
  unfold summariesOf
  rw [filter_runId, filter_runId, filter_key_of_mem hn hrun]
  by_cases hst : run.status = .running
  · simp [hst, Store.series]
  · simp [hst, aggregateOf_maxStep, aggregateOf_nil]

theorem summaries_lastValue (hn : (store.runs.map Run.runId).Nodup) (hrun : run ∈ store.runs) (k : MetricKey) :
    (summariesOf ties store.runs store.points store.aggregates k run.runId).getLast?.map
      MetricAggregate.lastValueF64 = store.lastValue k run := by
  rw [summariesOf_of_mem ties hn hrun]
  unfold Store.lastValue
  cases hst : run.status with
  | running => simp only [ite_true, getLast?_toList, aggregateOf_lastValue]
  | finished | failed => simp

omit ties in
theorem evidenceOf_lastValue (hn : (store.runs.map Run.runId).Nodup) (hrun : run ∈ store.runs) :
    (store.evidenceOf objective run).lastValueF64 = store.lastValue objective.metricKey run := by
  unfold Store.evidenceOf
  rw [objectiveEvidence_lastValue, summaries_lastValue _ hn hrun]

theorem eligibleValue_evidenceOf (hn : (store.runs.map Run.runId).Nodup) (hrun : run ∈ store.runs) {value : F64} :
    eligibleValue (store.evidenceOf objective run) = some value ↔
      run.status = .finished ∧ store.lastValue objective.metricKey run = some value ∧ value.isFinite = true := by
  unfold Store.evidenceOf
  rw [eligibleValue_objectiveEvidence, summaries_lastValue _ hn hrun]

theorem series_eq (he : Encoded store.points) (k : MetricKey) (r : RunId) :
    store.series k r = effectiveCte store.points r k none none := effectiveWhere_series he k r

theorem lastValue_of_running (he : Encoded store.points) (hst : run.status = .running) (k : MetricKey) :
    store.lastValue k run =
      (argMax MetricPointRow.step (effectiveCte store.points run.runId k none none)).map
        MetricPointRow.valueF64 := by
  unfold Store.lastValue
  rw [hst, series_eq he]

/-- Where a run's aggregates are those of its series, its last value is the one
at the greatest step. -/
theorem lastValue_eq_series (he : Encoded store.points)
    (hagg : store.aggregates.filter (fun a => a.runId == run.runId) = rebuiltAggregates ties store.points run.runId)
    (k : MetricKey) : store.lastValue k run =
      (argMax MetricPointRow.step (effectiveCte store.points run.runId k none none)).map
        MetricPointRow.valueF64 := by
  have hlast := aggregateOf_lastValue ties run.runId k (effectiveCte store.points run.runId k none none)
  rw [aggregateOf_maxStep] at hlast
  cases hst : run.status with
  | running => exact lastValue_of_running he hst k
  | finished | failed => simp only [Store.lastValue, hst, stored_of_rebuilt hagg he, getLast?_toList, hlast]

end

/-! ## A request -/

section
variable {store : Store} {objective : ObjectiveMetric}

theorem getRuns_ok (hn : (store.runs.map Run.runId).Nodup) {runIds : List RunId}
    (hex : ∀ r ∈ runIds, ∃ run ∈ store.runs, run.runId = r) :
    ∃ runs, store.getRuns runIds = .ok runs ∧ runs.map Run.runId = runIds ∧ ∀ run ∈ runs, run ∈ store.runs := by
  induction runIds with
  | nil => exact ⟨[], rfl, rfl, by simp⟩
  | cons r rest ih =>
    obtain ⟨run, hrun, rfl⟩ := hex r (List.mem_cons_self ..)
    obtain ⟨runs, hruns, hids, hmem⟩ := ih fun x hx => hex x (List.mem_cons_of_mem _ hx)
    refine ⟨run :: runs, ?_, by rw [List.map_cons, hids], List.forall_mem_cons.mpr ⟨hrun, hmem⟩⟩
    simp [Store.getRuns, filter_key_of_mem hn hrun, hruns, bind, Except.bind, pure, Except.pure]

/-- With distinct ids no run takes another's aggregate. -/
theorem takeEvidence_eq {runs : List Run} (hd : (runs.map Run.runId).Nodup) (aggregates : List MetricAggregate) :
    Store.takeEvidence runs aggregates = runs.map fun run => objectiveEvidence run.runId run.status
      (aggregates.filter fun a => a.runId == run.runId).getLast? := by
  induction runs generalizing aggregates with
  | nil => rfl
  | cons run rest ih =>
    rw [List.map_cons, List.nodup_cons] at hd
    rw [Store.takeEvidence, ih hd.2, List.map_cons]
    congr 1
    refine List.map_congr_left fun x hx => ?_
    rw [List.filter_filter]
    congr 2
    refine List.filter_congr fun a _ => ?_
    by_cases ha : a.runId = x.runId
    · have hne : x.runId ≠ run.runId := fun e => hd.1 (List.mem_map.mpr ⟨x, hx, e⟩)
      simp [ha, hne]
    · simp [ha]

theorem filter_summaries {runIds : List RunId} (hd : runIds.Nodup) {r : RunId} (hr : r ∈ runIds) (k : MetricKey) :
    (store.queryMetricSummaries runIds k).filter (fun a => a.runId == r) =
      summariesOf (store.ties runIds k) store.runs store.points store.aggregates k r := by
  unfold Store.queryMetricSummaries queryMetricSummaries
  generalize store.ties runIds k = ties
  induction runIds with
  | nil => cases hr
  | cons x rest ih =>
    rw [List.nodup_cons] at hd
    rw [List.flatMap_cons, List.filter_append]
    have hall : (summariesOf ties store.runs store.points store.aggregates k r).filter (fun a => a.runId == r) =
        summariesOf ties store.runs store.points store.aggregates k r :=
      List.filter_eq_self.mpr fun a ha => by simpa using summariesOf_runId ties ha
    by_cases hx : x = r
    · subst hx
      have hnone : (rest.flatMap (summariesOf ties store.runs store.points store.aggregates k)).filter
          (fun a => a.runId == x) = [] := by
        rw [List.filter_eq_nil_iff]
        intro a ha e
        obtain ⟨y, hy, hay⟩ := List.mem_flatMap.mp ha
        have hyx : y = x := (summariesOf_runId ties hay).symm.trans (eq_of_beq e)
        exact hd.1 (hyx ▸ hy)
      rw [hall, hnone, List.append_nil]
    · have hnone : (summariesOf ties store.runs store.points store.aggregates k x).filter
        (fun a => a.runId == r) = [] := by
        rw [List.filter_eq_nil_iff]
        intro a ha e
        exact hx ((summariesOf_runId ties ha).symm.trans (eq_of_beq e))
      rw [hnone, List.nil_append]
      exact ih hd.2 ((List.mem_cons.mp hr).resolve_left (Ne.symm hx))

theorem rankingEvidence_eq {runIds : List RunId} (hd : runIds.Nodup) {runs : List Run}
    (hruns : store.getRuns runIds = .ok runs) (hids : runs.map Run.runId = runIds) (objective : ObjectiveMetric) :
    store.rankingEvidence runIds objective = .ok (runs.map fun run => (run, store.evidenceOf objective run)) := by
  have hevidence : store.objectiveEvidenceForRuns runs objective = runs.map (store.evidenceOf objective) := by
    unfold Store.objectiveEvidenceForRuns
    rw [takeEvidence_eq (hids ▸ hd)]
    refine List.map_congr_left fun run hrun => ?_
    rw [filter_summaries (hids ▸ hd) (List.mem_map_of_mem hrun)]
    exact objectiveEvidence_same (forall₂_getLast? (summariesOf_same _ _ store.runs objective.metricKey))
  have hzip : ∀ l : List Run, l.zip (l.map (store.evidenceOf objective)) =
      l.map fun run => (run, store.evidenceOf objective run) := by
    intro l
    induction l with
    | nil => rfl
    | cons run rest ih => simp [ih]
  unfold Store.rankingEvidence
  rw [hruns]
  simp only [Except.mapError, bind, Except.bind, pure, Except.pure, hevidence, hzip]

theorem rankingEvidence_ok (hn : (store.runs.map Run.runId).Nodup) {runIds : List RunId} (hd : runIds.Nodup)
    (hex : ∀ r ∈ runIds, ∃ run ∈ store.runs, run.runId = r) (objective : ObjectiveMetric) :
    ∃ runs : List Run, store.rankingEvidence runIds objective =
      .ok (runs.map fun run => (run, store.evidenceOf objective run)) ∧
      runs.map Run.runId = runIds ∧ ∀ run ∈ runs, run ∈ store.runs := by
  obtain ⟨runs, hruns, hids, hmem⟩ := getRuns_ok hn hex
  exact ⟨runs, rankingEvidence_eq hd hruns hids objective, hids, hmem⟩

end

end Pulseon
