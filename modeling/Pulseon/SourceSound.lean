import Pulseon.CurvesSound
import Pulseon.Desktop

/-!
# What a session returns

The curves of a snapshot come from the runs that were asked for, one query each,
and its viewport is the one requested. So in a store that has every run once, a
snapshot has no two series with one identity.
-/

namespace Pulseon

/-! ## Runs -/

section
variable {store : Store}

theorem mem_of_getRuns {runIds : List RunId} {runs : List Run} (h : store.getRuns runIds = .ok runs) {run : Run}
    (hrun : run ∈ runs) : run ∈ store.runs ∧ run.runId ∈ runIds := by
  induction runIds generalizing runs with
  | nil => cases h; cases hrun
  | cons runId rest ih =>
    unfold Store.getRuns at h
    cases hf : store.runs.filter fun run => run.runId == runId with
    | nil => rw [hf] at h; cases h
    | cons first others =>
      rw [hf] at h
      cases hrest : store.getRuns rest with
      | error e => rw [hrest] at h; cases h
      | ok later =>
        rw [hrest] at h
        cases h
        rcases List.mem_append.mp hrun with hrun | hrun
        · have hmem := hf ▸ hrun
          obtain ⟨hin, hid⟩ := List.mem_filter.mp hmem
          exact ⟨hin, by rw [beq_iff_eq.mp hid]; exact List.mem_cons_self⟩
        · obtain ⟨hin, hid⟩ := ih hrest hrun
          exact ⟨hin, List.mem_cons_of_mem _ hid⟩

theorem getRun_mem (hn : (store.runs.map Run.runId).Nodup) {run : Run} (hr : run ∈ store.runs) :
    store.getRun run.runId = .ok run := by
  have hfind : store.runs.find? (fun other => other.runId == run.runId) = some run := by
    cases hf : store.runs.find? fun other => other.runId == run.runId with
    | none => simpa using List.find?_eq_none.mp hf run hr
    | some other =>
      have hid : other.runId = run.runId := by simpa using List.find?_some hf
      rw [List.inj_on_of_nodup_map hn (List.mem_of_find?_eq_some hf) hr hid]
  simp [Store.getRun, hfind]

/-- Runs of the store are read back by their ids. -/
theorem mapM_getRun (hn : (store.runs.map Run.runId).Nodup) {rows : List Run}
    (hrows : ∀ run ∈ rows, run ∈ store.runs) :
    (rows.map Run.runId).mapM store.getRun = .ok rows := by
  induction rows with
  | nil => rfl
  | cons run rest ih =>
    have hrest := ih fun other ho => hrows other (List.mem_cons_of_mem _ ho)
    simp only [List.map_cons, List.mapM_cons, getRun_mem hn (hrows run List.mem_cons_self), hrest]
    rfl

theorem mem_pageOf {α : Type} {limit : Option Nat} {offset : Nat} {rows : List α} {row : α}
    (h : row ∈ pageOf limit offset rows) : row ∈ rows := by
  cases limit with
  | none => exact List.mem_of_mem_drop h
  | some n => exact List.mem_of_mem_drop (List.mem_of_mem_take h)

@[simp] theorem pageOf_all {α : Type} (rows : List α) : pageOf none 0 rows = rows := rfl

@[simp] theorem mem_projectRuns {projectId : ProjectId} {status : Option RunStatus} {run : Run} :
    run ∈ store.projectRuns projectId status ↔
      run ∈ store.runs ∧ run.projectId = projectId ∧ ∀ s, status = some s → run.status = s := by
  cases status <;> simp [Store.projectRuns]

theorem listRuns_ok (hn : (store.runs.map Run.runId).Nodup) (projectId : ProjectId) (status : Option RunStatus)
    (limit : Option Nat) (offset : Nat) :
    store.listRuns projectId status limit offset = .ok (pageOf limit offset (store.projectRuns projectId status)) :=
  mapM_getRun hn fun _ hr => (mem_projectRuns.mp (mem_pageOf hr)).1

theorem projectRuns_nodup (hn : (store.runs.map Run.runId).Nodup) (projectId : ProjectId)
    (status : Option RunStatus) :
    ((store.projectRuns projectId status).map Run.runId).Nodup := by
  refine ((orderBy_perm Run.listed _).map Run.runId).nodup_iff.mpr ?_
  exact hn.sublist (List.filter_sublist.map Run.runId)

end

/-! ## Discovery -/

section
variable {source : Source} {request : DiscoveryRequest} {snapshot : CatalogSnapshot}

/-- The project of the request, when it exists. -/
def Source.chosen (source : Source) (request : DiscoveryRequest) : Option ProjectId :=
  request.projectId.filter fun projectId => source.listProjects.any fun project => project.projectId == projectId

theorem discover_eq (hn : (source.runs.map Run.runId).Nodup) : source.discover request = .ok ⟨source.listProjects,
    (source.chosen request).elim [] fun projectId => (source.projectRuns projectId none).reverse,
    (source.chosen request).elim [] fun projectId =>
      Source.sortedKeys
        (source.selectedMetrics (source.projectRuns projectId none).reverse request.selectedRunIds)⟩ := by
  unfold Source.discover
  dsimp only
  cases hc : source.chosen request <;> unfold Source.chosen at hc <;> rw [hc]
  · rfl
  · simp only [listRuns_ok hn, pageOf_all]
    rfl

theorem discover_nodup (hn : (source.runs.map Run.runId).Nodup) (h : source.discover request = .ok snapshot) :
    (snapshot.runs.map Run.runId).Nodup := by
  rw [discover_eq hn] at h
  cases h
  cases source.chosen request with
  | none => exact List.nodup_nil
  | some projectId =>
    simp only [Option.elim_some, List.map_reverse, List.nodup_reverse]
    exact projectRuns_nodup hn projectId none

end

/-! ## Curves -/

section
variable {accepts : Int → Bool} {store : Store} {selection : CurveSelection} {viewport : AlignmentViewport}

theorem mem_of_curvesOf {reduction : AlignmentReduction} {runs : List Run} {bounds : Option (Int × Int)}
    {series : List CurveSeriesSnapshot} {out : Option (Int × Int) × List CurveSeriesSnapshot}
    (h : curvesOf accepts store selection viewport reduction runs bounds series = .ok out)
    {curve : CurveSeriesSnapshot} (hc : curve ∈ out.2) :
    curve ∈ series ∨ ∃ run ∈ runs, curveSeries accepts store selection viewport reduction run = .ok curve := by
  induction runs generalizing bounds series with
  | nil => cases h; exact Or.inl hc
  | cons run rest ih =>
    unfold curvesOf at h
    cases hs : curveSeries accepts store selection viewport reduction run with
    | error e => rw [hs] at h; cases h
    | ok first =>
      rw [hs] at h
      rcases ih h with hin | ⟨later, hl, hcurve⟩
      · rcases List.mem_append.mp hin with hin | hin
        · exact Or.inl hin
        · rw [List.mem_singleton.mp hin]
          exact Or.inr ⟨run, List.mem_cons_self, hs⟩
      · exact Or.inr ⟨later, List.mem_cons_of_mem _ hl, hcurve⟩

/-- What a snapshot of the query is made of. -/
structure Queried (accepts : Int → Bool) (store : Store) (selection : CurveSelection) (viewport : AlignmentViewport)
    (snapshot : CurveSnapshot) : Prop where
  requested : snapshot.viewport = viewport
  range : ∃ runs reduction bounds, store.getRuns selection.runIds = .ok runs ∧
    curvesOf accepts store selection viewport reduction runs none [] = .ok (bounds, snapshot.series) ∧
    realRangeOf bounds = .ok snapshot.realRange

theorem queryCurves_queried {pointBudget : UInt32} {snapshot : CurveSnapshot}
    (h : queryCurves accepts store selection viewport pointBudget = .ok snapshot) :
    Queried accepts store selection viewport snapshot := by
  unfold queryCurves at h
  cases hruns : store.getRuns selection.runIds with
  | error e => rw [hruns] at h; cases h
  | ok runs =>
    rw [hruns] at h
    simp only [attempt, Except.mapError, bind, Except.bind] at h
    cases hreduction : AlignmentReduction.newScreenBudget pointBudget 1 with
    | error e => rw [hreduction] at h; cases h
    | ok reduction =>
      rw [hreduction] at h
      cases hcurves : curvesOf accepts store selection viewport reduction runs none [] with
      | error e => simp only [hcurves] at h; cases h
      | ok out =>
        simp only [hcurves] at h
        cases hrange : realRangeOf out.1 with
        | error e => rw [hrange] at h; cases h
        | ok range =>
          rw [hrange] at h
          cases h
          exact ⟨rfl, runs, reduction, out.1, hruns, hcurves, hrange⟩

theorem curveSeries_chart {reduction : AlignmentReduction} {run : Run} {curve : CurveSeriesSnapshot}
    (h : curveSeries accepts store selection viewport reduction run = .ok curve) {series : Series F64}
    (hs : curve.chartSeries = some series) : chartSeries run curve.evidence = .ok series := by
  unfold curveSeries at h
  cases hread : runEvidence accepts store selection viewport reduction run with
  | error e => rw [hread] at h; cases h
  | ok evidence =>
    rw [hread] at h
    by_cases hd : evidence.completeness.drawable = true
    · cases hchart : chartSeries run evidence with
      | error e => simp [attempt, Except.mapError, Except.map, bind, Except.bind, hd, hchart] at h
      | ok chart =>
        simp only [attempt, Except.mapError, Except.map, bind, Except.bind, hd, hchart, ite_true, pure,
          Except.pure] at h
        cases h
        cases hs
        exact hchart
    · simp only [attempt, Except.mapError, bind, Except.bind, hd, pure, Except.pure] at h
      cases h
      cases hs

theorem chartSeries_id {run : Run} {evidence : AlignedMetricResult} {series : Series F64}
    (h : chartSeries run evidence = .ok series) : series.id.value = run.runId := by
  unfold chartSeries SeriesId.new at h
  by_cases hn : blank run.runId = false
  · simp only [hn, dite_true, bind, Except.bind] at h
    unfold Series.new at h
    split at h
    · cases h; rfl
    · cases h
  · rw [dif_neg hn] at h
    cases h

/-- An identity stands for one series. -/
def CurveSnapshot.Keyed (snapshot : CurveSnapshot) : Prop :=
  ∀ series ∈ snapshot.drawn, ∀ series' ∈ snapshot.drawn, series.id.value = series'.id.value → series = series'

theorem Queried.keyed {snapshot : CurveSnapshot} (h : Queried accepts store selection viewport snapshot)
    (hn : (store.runs.map Run.runId).Nodup) : snapshot.Keyed := by
  obtain ⟨runs, reduction, bounds, hruns, hcurves, -⟩ := h.range
  have hrun : ∀ series ∈ snapshot.drawn, ∃ run curve, run ∈ store.runs ∧ series.id.value = run.runId ∧
      curveSeries accepts store selection viewport reduction run = .ok curve ∧ curve.chartSeries = some series := by
    intro series hs
    obtain ⟨curve, hc, hchart⟩ := List.mem_filterMap.mp hs
    rcases mem_of_curvesOf hcurves hc with hin | ⟨run, hr, hcurve⟩
    · cases hin
    · exact ⟨run, curve, (mem_of_getRuns hruns hr).1, chartSeries_id (curveSeries_chart hcurve hchart),
        hcurve, hchart⟩
  intro series hs series' hs' hid
  obtain ⟨run, curve, hr, hrid, hcurve, hchart⟩ := hrun series hs
  obtain ⟨run', curve', hr', hrid', hcurve', hchart'⟩ := hrun series' hs'
  obtain rfl : run = run' := List.inj_on_of_nodup_map hn hr hr' (by rw [← hrid, ← hrid', hid])
  rw [hcurve] at hcurve'
  cases hcurve'
  rw [hchart] at hchart'
  exact Option.some.inj hchart'

end

/-! ## Sessions -/

/-- The curves that a read snapshot holds. -/
def ReadSnapshot.curves : ReadSnapshot → Option CurveSnapshot
  | .catalog _ => none
  | .overview snapshot => some snapshot
  | .detail snapshot => some snapshot

section
variable (sourceText : StorageError → String) (queryText : QueryError → String) (accepts : Int → Bool)

/-- Every session that is open reads some store, which has each run once. -/
def ReadsStore : WorkerOp → Prop
  | .execute session => ∀ s, session = .ok s → ∃ source : Source, (source.runs.map Run.runId).Nodup ∧
      s = source.session sourceText queryText accepts
  | _ => True

end

section
variable {sourceText : StorageError → String} {queryText : QueryError → String} {accepts : Int → Bool}
  {session : Except String ReadSession} (hs : ReadsStore sourceText queryText accepts (.execute session))
  {t : TaggedRequest}
include hs

theorem execute_curves {snapshot : ReadSnapshot} (h : (execute session t).result = .ok snapshot)
    {curves : CurveSnapshot}
    (hc : snapshot.curves = some curves) : ∃ store selection viewport, (store.runs.map Run.runId).Nodup ∧
      Queried accepts store selection viewport curves := by
  cases session with
  | error error => cases h
  | ok s =>
    obtain ⟨source, hn, rfl⟩ := hs s rfl
    cases hr : t.request with
    | discover request =>
      simp only [execute, hr, bind, Except.bind, pure, Except.pure] at h
      cases hd : (source.session sourceText queryText accepts).discover request <;> rw [hd] at h <;> cases h
      cases hc
    | overview request =>
      simp only [execute, hr, Source.session, bind, Except.bind, pure, Except.pure] at h
      cases hq : queryOverview accepts source.toStore request with
      | error e => rw [hq] at h; cases h
      | ok result =>
        rw [hq] at h
        cases h
        cases hc
        rw [queryOverview_eq] at hq
        exact ⟨_, _, _, hn, queryCurves_queried hq⟩
    | detail request =>
      simp only [execute, hr, Source.session, bind, Except.bind, pure, Except.pure] at h
      cases hq : queryDetail accepts source.toStore request with
      | error e => rw [hq] at h; cases h
      | ok result =>
        rw [hq] at h
        cases h
        cases hc
        exact ⟨_, _, _, hn, queryCurves_queried hq⟩

end

end Pulseon
