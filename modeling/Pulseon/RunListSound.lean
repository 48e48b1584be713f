import Pulseon.DesktopSound

/-!
# The list of runs

The list is always the filter of the catalog. While the worker runs, every run
in it belongs to the selected project: an answer for another project is stale
once the project is changed, since the catalog is asked for again.
-/

namespace Pulseon

/-! ## What is discovered -/

/-- The runs of a catalog belong to a project of it, the one that was asked for. -/
theorem discover_project {source : Source} {request : DiscoveryRequest} {snapshot : CatalogSnapshot}
    (hn : (source.runs.map Run.runId).Nodup) (h : source.discover request = .ok snapshot) {run : Run}
    (hr : run ∈ snapshot.runs) : request.projectId = some run.projectId ∧
      snapshot.projects.any (fun project => project.projectId == run.projectId) = true := by
  rw [discover_eq hn] at h
  cases h
  cases hc : source.chosen request with
  | none => simp [hc] at hr
  | some projectId =>
    obtain ⟨hrequest, hlisted⟩ := Option.filter_eq_some_iff.mp hc
    simp only [hc, Option.elim_some, List.mem_reverse, mem_projectRuns] at hr
    rw [hr.2.1]
    exact ⟨hrequest, hlisted⟩

namespace ViewerApp

/-! ## The list -/

section
variable {Path : Type} (platform : Platform Path) (app : ViewerApp Path)

def Listed : Prop := app.runList = filteredRuns platform.toLowercase app.core.catalog app.runFilter

/-- The list, its filter and the catalog are the same. -/
structure SameList (app app' : ViewerApp Path) : Prop where
  runList : app'.runList = app.runList
  runFilter : app'.runFilter = app.runFilter
  catalog : app'.core.catalog = app.core.catalog

end

section
variable {Path : Type} {platform : Platform Path} {app app' : ViewerApp Path}

theorem Listed.same (h : app.Listed platform) (hs : SameList app app') : app'.Listed platform := by
  unfold Listed
  rw [hs.runList, hs.runFilter, hs.catalog]
  exact h

theorem listed_rebuild (app : ViewerApp Path) : (app.rebuildRunList platform).Listed platform := rfl

section
variable (h : app.Listed platform)
include h

theorem Listed.submit (request : ReadRequest) : (app.submit request).Listed platform := by
  unfold ViewerApp.submit
  cases app.worker <;> exact h.same ⟨rfl, rfl, rfl⟩

theorem Listed.requestOverview : app.requestOverview.Listed platform := by
  unfold ViewerApp.requestOverview
  split
  · exact h
  · exact h.submit _

theorem Listed.requestDetail : app.requestDetail.Listed platform := by
  unfold ViewerApp.requestDetail
  split
  · exact h
  · split
    · exact h
    · exact h.submit _

end

/-- But for a change of the project the catalog stays. -/
theorem change_catalog (core : ViewerCore) (op : UserOp) (hp : ∀ projectId, op ≠ .selectProject projectId)
    (hr : op ≠ .resetSource) :
    (core.change op).catalog = core.catalog ∧ (core.change op).selection.projectId = core.selection.projectId := by
  cases op with
  | selectProject projectId => exact absurd rfl (hp projectId)
  | toggleRun runId =>
    simp only [ViewerCore.change, ViewerCore.toggleRun]
    split_ifs <;> exact ⟨rfl, rfl⟩
  | selectMetric metricKey =>
    simp only [ViewerCore.change, ViewerCore.selectMetric]
    split <;> exact ⟨rfl, rfl⟩
  | selectAxis axis =>
    simp only [ViewerCore.change, ViewerCore.selectAxis]
    split <;> exact ⟨rfl, rfl⟩
  | resetSource => exact absurd rfl hr
  | resetView => exact ⟨rfl, rfl⟩
  | moveBrush brush => exact ⟨rfl, rfl⟩

/-- Only the snapshot of a catalog replaces the catalog. -/
theorem apply_catalog {core core' : ViewerCore} {event : ReadEvent} {outcome : ApplyOutcome}
    (h : core.apply event = some (core', outcome)) :
    (core'.catalog = core.catalog ∧ core'.selection.projectId = core.selection.projectId ∧
        ¬ (outcome = .applied ∧ event.result.isOk = true ∧ event.kind = .catalog)) ∨
      ∃ s, event.result = .ok (.catalog s) ∧ event.kind = .catalog ∧ outcome = .applied ∧
        core.expected .catalog = some event.generation ∧ core' = (core.received event).applyCatalog s := by
  rcases apply_cases core h with ⟨rfl, hout⟩ | ⟨rfl, he, hcase⟩
  · exact Or.inl ⟨rfl, rfl, fun hc => hout hc.1⟩
  rcases hcase with ⟨error, hresult, rfl⟩ | ⟨s, hresult, hk, rfl⟩ | ⟨s, hresult, hk, ho⟩ | ⟨s, hresult, hk, rfl⟩
  · exact Or.inl ⟨rfl, rfl, fun hc => by simp [hresult, Except.isOk, Except.toBool] at hc⟩
  · exact Or.inr ⟨s, hresult, hk, rfl, hk ▸ he, rfl⟩
  · obtain ⟨brush, -, rfl⟩ := Option.map_eq_some_iff.mp ho
    refine Or.inl ⟨?_, ?_, fun hc => by simp [hk] at hc⟩
    · unfold ViewerCore.storeOverview
      split <;> rfl
    · unfold ViewerCore.storeOverview
      split <;> rfl
  · exact Or.inl ⟨rfl, rfl, fun hc => by simp [hk] at hc⟩

section
variable (h : app.Listed platform)
include h

theorem event_listed (he : app.applyEvent platform = some app') : app'.Listed platform := by
  obtain ⟨event, events, core, outcome, -, ha, rfl⟩ := applyEvent_cases he
  rcases apply_catalog ha with ⟨hc, -, hnot⟩ | ⟨s, hresult, hk, rfl, -, -⟩
  · split
    · rename_i hs
      have hread : Listed platform { app with reader := (app.received event events core outcome).reader } :=
        h.same ⟨rfl, rfl, hc⟩
      cases hk : event.kind with
      | catalog => exact absurd ⟨hs.1, hs.2, hk⟩ hnot
      | overview =>
        have hrevised : Listed platform { app with
            reader := (app.received event events core outcome).reader, overviewRevision := event.generation } :=
          hread.same ⟨rfl, rfl, rfl⟩
        exact hrevised.requestDetail
      | detail => exact hread.same ⟨rfl, rfl, rfl⟩
    · exact h.same ⟨rfl, rfl, hc⟩
  · rw [if_pos ⟨rfl, by simp [hresult, Except.isOk, Except.toBool]⟩, hk]
    simp only [afterSnapshot]
    split
    · exact (listed_rebuild _).requestOverview
    · exact listed_rebuild _

theorem change_listed (op : UserOp) (hp : ∀ projectId, op ≠ .selectProject projectId) (hr : op ≠ .resetSource) :
    (app.setCore (app.core.change op)).Listed platform := h.same ⟨rfl, rfl, (change_catalog app.core op hp hr).1⟩

theorem drag_listed (brush : BrushState F64) (drag : Option DragGesture) (zoomTask : Bool) :
    Listed platform { app.setCore (app.core.moveBrush brush) with drag := drag, zoomTask := zoomTask } :=
  h.same ⟨rfl, rfl, rfl⟩

theorem reconcile_listed (scaleFactor : F32) : (app.reconcileCanvasWidths scaleFactor).Listed platform := by
  have hite : ∀ (c : Prop) [Decidable c] {app app' : ViewerApp Path}, app.Listed platform → app'.Listed platform →
      Listed platform (if c then app' else app) := by
    intro c _ app app' ha ha'
    split
    · exact ha'
    · exact ha
  have hresized : (app.resized scaleFactor).Listed platform := h.same ⟨rfl, rfl, rfl⟩
  have hasked :=
    hite ((app.adapter.physicalWidths scaleFactor).1.any fun width => width != app.overviewWidth) hresized
    hresized.requestOverview
  exact hite _ hasked hasked.requestDetail

theorem step_listed {op : AppOp} (hstep : app.step platform op = some app') : app'.Listed platform := by
  cases op with
  | openSource path spawned =>
    cases hstep
    cases spawned with
    | ok _ =>
      have hclosed : (app.closed path .running none).Listed platform := rfl
      exact hclosed.submit _
    | error error => rfl
  | pickerFailed error => cases hstep; exact h.same ⟨rfl, rfl, rfl⟩
  | refresh =>
    cases hstep
    have hquiet : Listed platform { app with localError := none } := h.same ⟨rfl, rfl, rfl⟩
    exact hquiet.submit _
  | reset =>
    cases hstep
    simp only [onReset]
    split
    · exact (change_listed h .resetView (by simp) (by simp)).requestDetail
    · exact h
  | selectAxis axis =>
    cases hstep
    exact (change_listed h (.selectAxis axis) (by simp) (by simp)).requestOverview
  | selectMetric metricKey =>
    cases hstep
    exact (change_listed h (.selectMetric (some metricKey)) (by simp) (by simp)).requestOverview
  | selectProject projectId => cases hstep; exact (listed_rebuild _).submit _
  | toggleRun runId =>
    cases hstep
    simp only [toggleRun]
    split
    · have hchanged := change_listed h (.toggleRun runId) (by simp) (by simp)
      have hquiet : Listed platform { app.setCore (app.core.toggleRun runId).1 with localError := none } :=
        hchanged.same ⟨rfl, rfl, rfl⟩
      exact hquiet.submit _
    · exact h.same ⟨rfl, rfl, rfl⟩
  | filterKey event =>
    cases hstep
    simp only [onFilterKey]
    split
    · exact h
    · exact listed_rebuild _
  | beginBrushDrag cursor =>
    cases hstep
    simp only [beginBrushDrag]
    split
    · exact h
    · exact h.same ⟨rfl, rfl, rfl⟩
  | moveBrushDrag cursor =>
    simp only [step, moveBrushDrag] at hstep
    split at hstep
    · cases hstep; exact h
    · split at hstep
      · cases hstep; exact h
      · split at hstep
        · cases hstep; exact h
        · obtain ⟨moved, -, rfl⟩ := Option.map_eq_some_iff.mp hstep
          exact drag_listed h _ _ _
  | beginDetailDrag cursor =>
    cases hstep
    simp only [beginDetailDrag]
    split
    · exact h
    · exact h.same ⟨rfl, rfl, rfl⟩
  | moveDetailDrag cursor =>
    simp only [step, moveDetailDrag] at hstep
    split at hstep
    · split at hstep
      · cases hstep; exact h
      · split at hstep
        · cases hstep; exact h
        · obtain ⟨moved, -, rfl⟩ := Option.map_eq_some_iff.mp hstep
          exact drag_listed h _ _ _
    · cases hstep; exact h
  | finishDrag =>
    cases hstep
    simp only [finishDrag]
    split
    · have hdropped : Listed platform { app with drag := none } := h.same ⟨rfl, rfl, rfl⟩
      exact hdropped.requestDetail
    · exact h
  | zoomDetail cursor delta =>
    simp only [step, zoomDetail] at hstep
    split at hstep
    · cases hstep; exact h
    · split at hstep
      · cases hstep; exact h
      · obtain ⟨zoomed, -, rfl⟩ := Option.map_eq_some_iff.mp hstep
        split
        · exact drag_listed h _ _ _
        · exact h
  | zoomTimer =>
    simp only [step, onZoomTimer] at hstep
    split at hstep
    · cases hstep
      have hfired : Listed platform { app with zoomTask := false } := h.same ⟨rfl, rfl, rfl⟩
      exact hfired.requestDetail
    · cases hstep
  | hover cursor =>
    obtain ⟨shown, -, rfl⟩ := Option.map_eq_some_iff.mp hstep
    exact h.same ⟨rfl, rfl, rfl⟩
  | leave => cases hstep; exact h.same ⟨rfl, rfl, rfl⟩
  | draw layout =>
    cases hstep
    exact (reconcile_listed h layout.scaleFactor).same ⟨rfl, rfl, rfl⟩
  | event => exact event_listed h hstep
  | work op =>
    simp only [step] at hstep
    split at hstep
    · obtain ⟨reader, hr, rfl⟩ := Option.map_eq_some_iff.mp hstep
      exact h.same ⟨rfl, rfl, congrArg ViewerCore.catalog (work_effect hr).1⟩
    · cases hstep
  | workerStopped =>
    simp only [step] at hstep
    split at hstep
    · cases hstep; exact h.same ⟨rfl, rfl, rfl⟩
    · cases hstep

end

end

/-! ## The project of the list -/

section
variable {Path : Type} (app : ViewerApp Path)

/-- The runs of the catalog belong to the selected project. -/
def InProject : Prop :=
  ∀ catalog, app.core.catalog = some catalog →
    ∀ run ∈ catalog.runs, app.core.selection.projectId = some run.projectId

/-- So will the runs of the catalog that is expected. -/
structure Scoped : Prop where
  catalog : app.InProject
  asked : ∀ generation, app.core.expected .catalog = some generation →
    ∀ t ∈ app.reader.channel ++ app.reader.worker.requests, t.generation = generation →
      ∀ request, t.request = .discover request → request.projectId = app.core.selection.projectId
  arrived : ∀ generation, app.core.expected .catalog = some generation → ∀ event ∈ app.reader.events,
    event.generation = generation → ∀ s, event.result = .ok (.catalog s) → ∀ run ∈ s.runs,
      app.core.selection.projectId = some run.projectId ∧
        s.projects.any (fun project => project.projectId == run.projectId) = true

end

section
variable {Path : Type} {platform : Platform Path} {app app' : ViewerApp Path}

theorem Scoped.narrow (h : app.Scoped) (hcatalog : app'.core.catalog = app.core.catalog)
    (hproject : app'.core.selection.projectId = app.core.selection.projectId)
    (hexpected : ∀ generation, app'.core.expected .catalog = some generation →
      app.core.expected .catalog = some generation)
    (hrequests : ∀ t ∈ app'.reader.channel ++ app'.reader.worker.requests,
      t ∈ app.reader.channel ++ app.reader.worker.requests)
    (hevents : ∀ event ∈ app'.reader.events, event ∈ app.reader.events) : app'.Scoped where
  catalog catalog hc := by rw [hproject]; exact h.catalog catalog (hcatalog ▸ hc)
  asked generation hg t ht htg request hr := by
    rw [hproject]
    exact h.asked generation (hexpected generation hg) t (hrequests t ht) htg request hr
  arrived generation hg event hev heg s hs := by
    rw [hproject]
    exact h.arrived generation (hexpected generation hg) event (hevents event hev) heg s hs

theorem Scoped.congr (h : app.Scoped) (hreader : app'.reader = app.reader) : app'.Scoped := by
  have hcore : app'.core = app.core := by rw [core, core, hreader]
  exact h.narrow (by rw [hcore]) (by rw [hcore]) (by simp [hcore]) (by simp [hreader]) (by simp [hreader])

theorem Scoped.change (h : app.Scoped) {op : UserOp} (hp : ∀ projectId, op ≠ .selectProject projectId)
    (hr : op ≠ .resetSource) : (app.setCore (app.core.change op)).Scoped := by
  obtain ⟨hcatalog, hproject⟩ := change_catalog app.core op hp hr
  exact h.narrow hcatalog hproject (fun _ => (effect_narrows (change_effect app.core op)).expected)
    (fun _ ht => ht) fun _ he => he

/-- A request of another kind asks for no catalog. -/
theorem Scoped.submit (h : app.Scoped) {request : ReadRequest} (hk : request.kind ≠ .catalog) :
    (app.submit request).Scoped := by
  unfold ViewerApp.submit
  cases app.worker with
  | absent => exact h
  | stopped => exact h.congr rfl
  | running =>
    have hexpected : ∀ generation, (app.core.begin app.nextGeneration request).expected .catalog = some generation →
        app.core.expected .catalog = some generation := by
      intro generation hg
      simpa [ViewerCore.begin, Ne.symm hk] using hg
    refine ⟨h.catalog, fun generation hg t ht htg r hr => ?_, fun generation hg =>
      h.arrived generation (hexpected generation hg)⟩
    simp only [Reader.submit, List.append_assoc, List.mem_append, List.mem_singleton] at ht
    have hold := h.asked generation (hexpected generation hg) t
    rcases ht with ht | rfl | ht
    · exact hold (List.mem_append_left _ ht) htg r hr
    · exact absurd (congrArg ReadRequest.kind hr) hk
    · exact hold (List.mem_append_right _ ht) htg r hr

theorem Scoped.requestOverview (h : app.Scoped) : app.requestOverview.Scoped := by
  unfold ViewerApp.requestOverview
  split
  · exact h
  · exact h.submit (by simp [ReadRequest.kind])

theorem Scoped.requestDetail (h : app.Scoped) : app.requestDetail.Scoped := by
  unfold ViewerApp.requestDetail
  split
  · exact h
  · split
    · exact h
    · exact h.submit (by simp [ReadRequest.kind])

/-- The catalog that is asked for is one of the selected project. -/
theorem InProject.refreshCatalog {allowed : WorkerOp → Prop} (h : app.InProject) (hd : app.Drives allowed)
    (hw : app.worker = .running) : app.refreshCatalog.Scoped := by
  simp only [ViewerApp.refreshCatalog, ViewerApp.submit, hw]
  obtain ⟨hrequests, hevents⟩ := hd.onTheWay
  have hgeneration : ∀ generation,
      (app.core.begin app.nextGeneration
        (.discover ⟨app.core.selection.projectId, app.core.selection.runIds⟩)).expected
        .catalog = some generation → generation = app.nextGeneration := by
    intro generation hg
    simpa [ViewerCore.begin, ReadRequest.kind] using hg.symm
  refine ⟨h, fun generation hg t ht htg request hr => ?_, fun generation hg event hev heg => ?_⟩
  · simp only [Reader.submit, List.append_assoc, List.mem_append, List.mem_singleton] at ht
    have hold : t ∉ app.reader.channel ++ app.reader.worker.requests := fun hin =>
      Nat.ne_of_lt (hrequests t hin) (htg.trans (hgeneration generation hg))
    rcases ht with ht | rfl | ht
    · exact absurd (List.mem_append_left _ ht) hold
    · cases hr
      rfl
    · exact absurd (List.mem_append_right _ ht) hold
  · exact absurd (heg.trans (hgeneration generation hg)) (Nat.ne_of_lt (hevents event hev))

theorem applyCatalog_selection (core : ViewerCore) (s : CatalogSnapshot) :
    (core.applyCatalog s).catalog = some s ∧ (core.applyCatalog s).selection = core.reconciled s ∧
      (core.applyCatalog s).expected .catalog = core.expected .catalog := by
  unfold ViewerCore.applyCatalog
  dsimp only
  split
  · rename_i he
    exact ⟨rfl, he.symm, rfl⟩
  · exact ⟨rfl, rfl, rfl⟩

theorem event_scoped (h : app.Scoped) (he : app.applyEvent platform = some app') : app'.Scoped := by
  obtain ⟨event, events, core, outcome, hev, ha, rfl⟩ := applyEvent_cases he
  have hhead : event ∈ app.reader.events := hev ▸ List.mem_cons_self
  have htail : ∀ e ∈ events, e ∈ app.reader.events := fun e hin => hev ▸ List.mem_cons_of_mem _ hin
  rcases apply_catalog ha with ⟨hcatalog, hproject, hnot⟩ | ⟨s, hresult, hk, rfl, hexp, rfl⟩
  · have hnarrows : Narrows app.core core := by
      by_cases ho : outcome = .applied
      · subst ho
        exact (apply_applied ha).2.1
      · rw [apply_ignored ha ho]
        exact fun _ => Or.inl rfl
    have hr : (app.received event events core outcome).Scoped :=
      h.narrow hcatalog hproject (fun _ => hnarrows.expected) (fun _ ht => ht) htail
    split
    · rename_i hs
      cases hk : event.kind with
      | catalog => exact absurd ⟨hs.1, hs.2, hk⟩ hnot
      | overview =>
        have hrevised : Scoped { app with
            reader := (app.received event events core outcome).reader, overviewRevision := event.generation } :=
              hr.congr rfl
        exact hrevised.requestDetail
      | detail => exact hr.congr rfl
    · exact hr
  · rw [if_pos ⟨rfl, by simp [hresult, Except.isOk, Except.toBool]⟩, hk]
    obtain ⟨hc, hselection, hexpected⟩ := applyCatalog_selection (app.core.received event) s
    have hnone : ((app.core.received event).applyCatalog s).expected .catalog = none := by
      rw [hexpected]
      simp [ViewerCore.received, hk]
    have hread : Scoped { app with
        reader := (app.received event events ((app.core.received event).applyCatalog s) .applied).reader } := by
      refine ⟨fun catalog hcatalog run hrun => ?_, fun generation hg => ?_, fun generation hg => ?_⟩
      · obtain rfl : s = catalog := Option.some.inj (hc.symm.trans hcatalog)
        obtain ⟨hproject, hlisted⟩ := h.arrived event.generation hexp event hhead rfl s hresult run hrun
        have hsame : (app.core.received event).selection.projectId = some run.projectId := hproject
        change ((app.core.received event).applyCatalog s).selection.projectId = some run.projectId
        rw [hselection, ViewerCore.reconciled, hsame]
        simp [hlisted, hsame]
      · exact absurd (hnone.symm.trans hg) (by simp)
      · exact absurd (hnone.symm.trans hg) (by simp)
    simp only [afterSnapshot]
    have hlist : Scoped (rebuildRunList platform { app with
        reader := (app.received event events ((app.core.received event).applyCatalog s) .applied).reader }) :=
          hread.congr rfl
    split
    · exact hlist.requestOverview
    · exact hlist

theorem execute_project {sourceText : StorageError → String} {queryText : QueryError → String}
    {accepts : Int → Bool}
    {session : Except String ReadSession} (hs : ReadsStore sourceText queryText accepts (.execute session))
    {t : TaggedRequest}
    {s : CatalogSnapshot} (h : (execute session t).result = .ok (.catalog s)) {run : Run} (hr : run ∈ s.runs) :
    ∃ request, t.request = .discover request ∧ request.projectId = some run.projectId ∧
      s.projects.any (fun project => project.projectId == run.projectId) = true := by
  cases session with
  | error error => cases h
  | ok read =>
    obtain ⟨source, hn, rfl⟩ := hs read rfl
    obtain ⟨generation, request⟩ := t
    have hk := execute_kind h
    cases request with
    | discover request =>
      have hd := answers_discover ⟨source, hn, h⟩
      obtain ⟨store, hstore, hd⟩ := hd
      obtain ⟨hproject, hlisted⟩ := discover_project hstore hd hr
      exact ⟨request, rfl, hproject, hlisted⟩
    | _ => cases hk

theorem work_scoped {sourceText : StorageError → String} {queryText : QueryError → String} {accepts : Int → Bool}
    (h : app.Scoped) {op : WorkerOp} (hop : ReadsStore sourceText queryText accepts op) {reader : Reader}
    (hr : app.reader.step op.toReader = some reader) : ({ app with reader := reader } : ViewerApp Path).Scoped := by
  obtain ⟨hcore, hrequests, hevents⟩ := work_effect hr
  have hselection : reader.core.selection = app.core.selection := congrArg ViewerCore.selection hcore
  have hexpected : ∀ {kind generation}, reader.core.expected kind = some generation →
    app.core.expected kind = some generation :=
    fun hg => by rw [← hg, hcore]; rfl
  refine ⟨fun catalog hc run hrun => ?_, fun generation hg t ht htg request hrequest => ?_,
    fun generation hg event hev heg s hs run hrun => ?_⟩
  · change reader.core.selection.projectId = some run.projectId
    rw [hselection]
    exact h.catalog catalog (hc.symm.trans (congrArg ViewerCore.catalog hcore)).symm run hrun
  · change request.projectId = reader.core.selection.projectId
    rw [hselection]
    exact h.asked generation (hexpected hg) t (hrequests t ht) htg request hrequest
  · change reader.core.selection.projectId = some run.projectId ∧ _
    rw [hselection]
    rcases hevents event hev with hev | ⟨session, t, rfl, ht, rfl⟩
    · exact h.arrived generation (hexpected hg) event hev heg s hs run hrun
    · obtain ⟨request, hrequest, hproject, hlisted⟩ := execute_project hop hs hrun
      have hasked := h.asked generation (hexpected hg) t (List.mem_append_right _ ht) heg request hrequest
      exact ⟨hasked ▸ hproject, hlisted⟩

theorem reconcile_scoped (h : app.Scoped) (scaleFactor : F32) : (app.reconcileCanvasWidths scaleFactor).Scoped := by
  have hite : ∀ (c : Prop) [Decidable c] {app app' : ViewerApp Path}, app.Scoped → app'.Scoped →
      Scoped (if c then app' else app) := by
    intro c _ app app' ha ha'
    split
    · exact ha'
    · exact ha
  have hresized : (app.resized scaleFactor).Scoped := h.congr rfl
  have hasked :=
    hite ((app.adapter.physicalWidths scaleFactor).1.any fun width => width != app.overviewWidth) hresized
    hresized.requestOverview
  exact hite _ hasked hasked.requestDetail

end

section
variable {Path : Type} {platform : Platform Path} {app app' : ViewerApp Path} {sourceText : StorageError → String}
  {queryText : QueryError → String} {accepts : Int → Bool}

theorem worker_submit (app : ViewerApp Path) (request : ReadRequest) :
    (app.submit request).worker = app.worker := by
  unfold submit
  cases hw : app.worker <;> simp [hw]

theorem worker_requestOverview (app : ViewerApp Path) : app.requestOverview.worker = app.worker := by
  unfold requestOverview
  split
  · rfl
  · exact worker_submit _ _

theorem worker_requestDetail (app : ViewerApp Path) : app.requestDetail.worker = app.worker := by
  unfold requestDetail
  split
  · rfl
  · split
    · rfl
    · exact worker_submit _ _

theorem worker_reconcile (app : ViewerApp Path) (scaleFactor : F32) :
    (app.reconcileCanvasWidths scaleFactor).worker = app.worker := by
  unfold reconcileCanvasWidths
  dsimp only
  split <;> split <;> simp only [worker_requestDetail, worker_requestOverview]

theorem worker_applyEvent (he : app.applyEvent platform = some app') : app'.worker = app.worker := by
  obtain ⟨event, events, core, outcome, -, -, rfl⟩ := applyEvent_cases he
  split
  · cases event.kind with
    | catalog =>
      simp only [afterSnapshot]
      split
      · exact worker_requestOverview _
      · rfl
    | overview => exact worker_requestDetail _
    | detail => rfl
  · rfl

theorem inProject_selectProject (h : app.InProject) (projectId : Option ProjectId) :
    (app.setCore (app.core.selectProject projectId)).InProject := by
  intro catalog hc run hrun
  change (app.core.selectProject projectId).catalog = some catalog at hc
  change (app.core.selectProject projectId).selection.projectId = some run.projectId
  unfold ViewerCore.selectProject at hc ⊢
  split at hc
  · rename_i he
    rw [if_pos he]
    exact h catalog hc run hrun
  · obtain ⟨old, -, rfl⟩ := Option.map_eq_some_iff.mp hc
    cases hrun

/-- A step that leaves the worker running had it run before, or opened a source. -/
theorem step_scoped (hd : app.Drives (ReadsStore sourceText queryText accepts))
    (h : app.worker = .running → app.Scoped)
    {op : AppOp} (hop : Works (ReadsStore sourceText queryText accepts) op) (hn : app.nextGeneration < u64Max)
    (hstep : app.step platform op = some app') (hw : app'.worker = .running) : app'.Scoped := by
  have hchange : ∀ op, (∀ projectId, op ≠ .selectProject projectId) → op ≠ .resetSource → app.worker = .running →
      (app.setCore (app.core.change op)).Scoped := fun op hp hr hrunning => (h hrunning).change hp hr
  have hbrush : ∀ (brush : BrushState F64) (drag : Option DragGesture) (zoomTask : Bool), app.worker = .running →
      Scoped { app.setCore (app.core.moveBrush brush) with drag := drag, zoomTask := zoomTask } :=
        fun brush _ _ hrunning =>
    (hchange (.moveBrush brush) (by simp) (by simp) hrunning).congr rfl
  cases op with
  | openSource path spawned =>
    cases hstep
    cases spawned with
    | ok _ =>
      have hclosed := move_drives (Move.close app path .running none : Move platform _ _ _) (fun _ => hd) hn
      exact InProject.refreshCatalog (fun _ hc => by cases hc) hclosed rfl
    | error error => cases hw
  | pickerFailed error => cases hstep; exact (h hw).congr rfl
  | refresh =>
    cases hstep
    have hrunning : app.worker = .running := (worker_submit { app with localError := none } _).symm.trans hw
    exact InProject.refreshCatalog (h hrunning).catalog ⟨hd.run, hd.behind⟩ hrunning
  | reset =>
    cases hstep
    unfold onReset at hw ⊢
    by_cases hc : app.core.resetView.2 = true
    · rw [if_pos hc] at hw ⊢
      have hrunning : app.worker = .running :=
        (worker_requestDetail (app.setCore app.core.resetView.1)).symm.trans hw
      exact Scoped.requestDetail (hchange .resetView (by simp) (by simp) hrunning)
    · rw [if_neg hc] at hw ⊢
      exact h hw
  | selectAxis axis =>
    cases hstep
    have hrunning : app.worker = .running :=
      (worker_requestOverview (app.setCore (app.core.selectAxis axis))).symm.trans hw
    exact Scoped.requestOverview (hchange (.selectAxis axis) (by simp) (by simp) hrunning)
  | selectMetric metricKey =>
    cases hstep
    have hrunning : app.worker = .running :=
      (worker_requestOverview (app.setCore (app.core.selectMetric (some metricKey)))).symm.trans hw
    exact Scoped.requestOverview (hchange (.selectMetric (some metricKey)) (by simp) (by simp) hrunning)
  | selectProject projectId =>
    cases hstep
    have hrunning : app.worker = .running := (worker_submit (rebuildRunList platform
      { app.setCore (app.core.selectProject (some projectId)) with runFilter := "" }) _).symm.trans hw
    have hdrives := hd.change (.selectProject (some projectId))
    exact InProject.refreshCatalog (inProject_selectProject (h hrunning).catalog _)
      ⟨hdrives.run, hdrives.behind⟩ hrunning
  | toggleRun runId =>
    cases hstep
    unfold toggleRun at hw ⊢
    cases hc : (app.core.toggleRun runId).2 with
    | ok _ =>
      simp only [hc] at hw ⊢
      have hrunning : app.worker = .running :=
        (worker_submit { app.setCore (app.core.toggleRun runId).1 with localError := none } _).symm.trans hw
      have hdrives := hd.change (.toggleRun runId)
      have hchanged := hchange (.toggleRun runId) (by simp) (by simp) hrunning
      exact InProject.refreshCatalog hchanged.catalog ⟨hdrives.run, hdrives.behind⟩ hrunning
    | error _ =>
      simp only [hc] at hw ⊢
      exact (h hw).congr rfl
  | filterKey event =>
    cases hstep
    unfold onFilterKey at hw ⊢
    cases hc : filterAfter app.runFilter event with
    | none =>
      simp only [hc] at hw ⊢
      exact h hw
    | some filter =>
      simp only [hc] at hw ⊢
      exact (h hw).congr rfl
  | beginBrushDrag cursor =>
    cases hstep
    unfold beginBrushDrag at hw ⊢
    cases hb : app.core.brush with
    | none =>
      simp only [hb] at hw ⊢
      exact h hw
    | some brush =>
      simp only [hb] at hw ⊢
      exact (h hw).congr rfl
  | moveBrushDrag cursor =>
    simp only [step, moveBrushDrag] at hstep
    split at hstep
    · cases hstep; exact h hw
    · split at hstep
      · cases hstep; exact h hw
      · split at hstep
        · cases hstep; exact h hw
        · obtain ⟨moved, -, rfl⟩ := Option.map_eq_some_iff.mp hstep
          exact hbrush _ _ _ hw
  | beginDetailDrag cursor =>
    cases hstep
    unfold beginDetailDrag at hw ⊢
    cases hb : app.core.brush with
    | none =>
      simp only [hb] at hw ⊢
      exact h hw
    | some brush =>
      simp only [hb] at hw ⊢
      exact (h hw).congr rfl
  | moveDetailDrag cursor =>
    simp only [step, moveDetailDrag] at hstep
    split at hstep
    · split at hstep
      · cases hstep; exact h hw
      · split at hstep
        · cases hstep; exact h hw
        · obtain ⟨moved, -, rfl⟩ := Option.map_eq_some_iff.mp hstep
          exact hbrush _ _ _ hw
    · cases hstep; exact h hw
  | finishDrag =>
    cases hstep
    unfold finishDrag at hw ⊢
    by_cases hc : app.drag.isSome = true
    · rw [if_pos hc] at hw ⊢
      have hrunning : app.worker = .running := (worker_requestDetail { app with drag := none }).symm.trans hw
      have hdropped : Scoped { app with drag := none } := (h hrunning).congr rfl
      exact hdropped.requestDetail
    · rw [if_neg hc] at hw ⊢
      exact h hw
  | zoomDetail cursor delta =>
    simp only [step, zoomDetail] at hstep
    split at hstep
    · cases hstep; exact h hw
    · split at hstep
      · cases hstep; exact h hw
      · obtain ⟨zoomed, -, rfl⟩ := Option.map_eq_some_iff.mp hstep
        by_cases hc : zoomed.1.isOk = true
        · simp only [hc, ite_true] at hw ⊢
          exact hbrush _ _ _ hw
        · simp only [hc, Bool.false_eq_true, ite_false] at hw ⊢
          exact h hw
  | zoomTimer =>
    simp only [step, onZoomTimer] at hstep
    split at hstep
    · cases hstep
      have hrunning : app.worker = .running := (worker_requestDetail { app with zoomTask := false }).symm.trans hw
      have hfired : Scoped { app with zoomTask := false } := (h hrunning).congr rfl
      exact hfired.requestDetail
    · cases hstep
  | hover cursor =>
    obtain ⟨shown, -, rfl⟩ := Option.map_eq_some_iff.mp hstep
    exact (h hw).congr rfl
  | leave => cases hstep; exact (h hw).congr rfl
  | draw layout =>
    cases hstep
    have hrunning : app.worker = .running := (worker_reconcile app layout.scaleFactor).symm.trans hw
    exact (reconcile_scoped (h hrunning) layout.scaleFactor).congr rfl
  | event => exact event_scoped (h ((worker_applyEvent hstep).symm.trans hw)) hstep
  | work op =>
    simp only [step] at hstep
    split at hstep
    · rename_i hrunning
      obtain ⟨reader, hr, rfl⟩ := Option.map_eq_some_iff.mp hstep
      exact work_scoped (h hrunning) hop hr
    · cases hstep
  | workerStopped =>
    simp only [step] at hstep
    split at hstep
    · cases hstep; cases hw
    · cases hstep

/-! ## Runs -/

/-- In every run the list is the filter of the catalog, and while the worker
runs its runs belong to the selected project. -/
theorem run_list_in_project {ops : List AppOp}
    (hm : Meets (step platform) (fun _ op => Works (ReadsStore sourceText queryText accepts) op) {} ops)
    (h : exec (step platform) {} ops = some app) (hlt : app.nextGeneration < u64Max) :
    app.runList = filteredRuns platform.toLowercase app.core.catalog app.runFilter ∧
      (app.worker = .running → ∀ run ∈ app.runList, app.core.selection.projectId = some run.projectId) := by
  have hlisted : app.Listed platform :=
    exec_inv_all (step platform) (fun _ _ _ hs hl => step_listed hl hs) h rfl
  refine ⟨hlisted, fun hw run hr => ?_⟩
  have hscoped : app.Drives (ReadsStore sourceText queryText accepts) ∧ (app.worker = .running → app.Scoped) := by
    refine @exec_inv _ _ (step platform) _ (fun app => app.nextGeneration < u64Max →
      app.Drives (ReadsStore sourceText queryText accepts) ∧ (app.worker = .running → app.Scoped))
      (fun app op app' hop hs happ hlt => ?_) _ _ _ hm h (fun _ => ⟨drives_init, fun hw => by cases hw⟩) hlt
    have hmoves := step_moves hop hs
    have hn := moves_unsaturated hmoves hlt
    obtain ⟨hdrives, hscoped⟩ := happ hn
    exact ⟨Moves.inv (fun _ _ => move_drives) hmoves (fun _ => hdrives) hlt, step_scoped hdrives hscoped hop hn hs⟩
  rw [hlisted, filteredRuns] at hr
  cases hc : app.core.catalog with
  | none => simp [hc] at hr
  | some catalog =>
    rw [hc] at hr
    exact (hscoped.2 hw).catalog catalog hc run (List.mem_of_mem_filter hr)

theorem run_list_in_project_pair : ∃ app, exec (step positions) {} pairOps = some app ∧
    app.runList.map Run.runId = ["r"] ∧ app.core.selection.projectId = some "p" ∧
    ∀ run ∈ app.runList, run.projectId = "p" := by
  have hrun : (exec (step positions) {} pairOps).any (fun app =>
      decide (app.runList.map Run.runId = ["r"] ∧ app.worker = .running)) = true := by decide +kernel
  obtain ⟨app, happ, hlt, -, -, -, -, -, -, hselection, -⟩ := pairOps_rests
  rw [happ] at hrun
  obtain ⟨hids, hw⟩ := of_decide_eq_true hrun
  have hproject : app.core.selection.projectId = some "p" := by rw [hselection]
  refine ⟨app, happ, hids, hproject, fun run hr => ?_⟩
  have hin := (run_list_in_project pairOps_meets happ hlt).2 hw run hr
  exact (Option.some.inj (hproject.symm.trans hin)).symm

end

end ViewerApp

end Pulseon
