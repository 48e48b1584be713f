import Mathlib.Logic.Relation
import Pulseon.Desktop
import Pulseon.ReadWorkerSound

/-!
# The moves of the desktop

A step of the app is a sequence of moves, each of which changes one part: the
core by a user's operation or a gesture, the requests, the events, the worker,
the caches, the source, or what stands beside them. An invariant of the moves is
an invariant of the steps.
-/

namespace Pulseon

/-! ## The worker -/

/-- The worker leaves the core alone, and requests become events only by executing them. -/
theorem work_effect {r r' : Reader} {op : WorkerOp} (h : r.step op.toReader = some r') :
    r'.core = r.core ∧ (∀ t ∈ r'.channel ++ r'.worker.requests, t ∈ r.channel ++ r.worker.requests) ∧
      ∀ event ∈ r'.events, event ∈ r.events ∨
        ∃ session t, op = .execute session ∧ t ∈ r.worker.requests ∧ event = execute session t := by
  cases op with
  | recv =>
    cases hw : r.worker <;> cases hc : r.channel
      <;> simp only [WorkerOp.toReader, Reader.step, hw, hc, reduceCtorEq] at h
    cases h
    refine ⟨rfl, fun t ht => ?_, fun event he => Or.inl he⟩
    rcases List.mem_append.mp ht with ht | ht
    · exact List.mem_append_left _ (List.mem_cons_of_mem _ ht)
    · rcases List.mem_cons.mp (PendingRequests.mem_push ht) with rfl | ht
      · exact List.mem_append_left _ List.mem_cons_self
      · exact absurd ht List.not_mem_nil
  | drain =>
    cases hw : r.worker <;> cases hc : r.channel
      <;> simp only [WorkerOp.toReader, Reader.step, hw, hc, reduceCtorEq] at h
    cases h
    refine ⟨rfl, fun t ht => ?_, fun event he => Or.inl he⟩
    rcases List.mem_append.mp ht with ht | ht
    · exact List.mem_append_left _ (List.mem_cons_of_mem _ ht)
    · rcases List.mem_cons.mp (PendingRequests.mem_push ht) with rfl | ht
      · exact List.mem_append_left _ List.mem_cons_self
      · exact List.mem_append_right _ ht
  | drained =>
    cases hw : r.worker <;> cases hc : r.channel
      <;> simp only [WorkerOp.toReader, Reader.step, hw, hc, reduceCtorEq] at h
    cases h
    exact ⟨rfl, fun t ht => ht, fun event he => Or.inl he⟩
  | take =>
    cases hw : r.worker with
    | drained pending =>
      simp only [WorkerOp.toReader, Reader.step, hw] at h
      cases hp : pending.takeNext with
      | none =>
        simp only [hp, Option.some.injEq] at h
        subst h
        refine ⟨rfl, fun t ht => ?_, fun event he => Or.inl he⟩
        exact List.mem_append_left _ (by simpa [WorkerLoop.requests] using ht)
      | some taken =>
        simp only [hp, Option.some.injEq] at h
        subst h
        refine ⟨rfl, fun t ht => ?_, fun event he => Or.inl he⟩
        rw [WorkerLoop.requests, (PendingRequests.takeNext_some hp).1]
        exact ht
    | _ => simp only [WorkerOp.toReader, Reader.step, hw, reduceCtorEq] at h
  | execute session =>
    cases hw : r.worker with
    | executing t pending =>
      simp only [WorkerOp.toReader, Reader.step, hw, Option.some.injEq] at h
      subst h
      refine ⟨rfl, fun x hx => ?_, fun event he => ?_⟩
      · rcases List.mem_append.mp hx with hx | hx
        · exact List.mem_append_left _ hx
        · exact List.mem_append_right _ (List.mem_cons_of_mem _ hx)
      · rcases List.mem_append.mp he with he | he
        · exact Or.inl he
        · exact Or.inr ⟨session, t, rfl, List.mem_cons_self, List.mem_singleton.mp he⟩
    | _ => simp only [WorkerOp.toReader, Reader.step, hw, reduceCtorEq] at h

namespace ViewerApp

/-! ## Moves -/

section
variable {Path : Type} (platform : Platform Path) (app : ViewerApp Path)

/-- A source is closed and another one is about to be read. -/
def closed (path : String) (worker : WorkerHandle) (localError : Option String) : ViewerApp Path :=
  { app with
    worker := worker, reader := {}, runList := [], adapter := {}, hover := none, drag := none,
    zoomTask := false, localError := localError, sourcePath := some path }

/-- The snapshot of an event of that kind was stored. -/
def Stored (event : ReadEvent) (outcome : ApplyOutcome) (kind : ReadKind) : Prop :=
  outcome = .applied ∧ event.result.isOk = true ∧ event.kind = kind

instance (event : ReadEvent) (outcome : ApplyOutcome) (kind : ReadKind) : Decidable (Stored event outcome kind) :=
  inferInstanceAs (Decidable (_ ∧ _ ∧ _))

/-- The first event is out of the queue and its outcome in the core. -/
def received (event : ReadEvent) (events : List ReadEvent) (core : ViewerCore) (outcome : ApplyOutcome) :
    ViewerApp Path :=
  { app with
    reader := { app.reader with
      core := core, events := events
      applied := if outcome = .applied then event.tag :: app.reader.applied else app.reader.applied }
    overviewRevision := if Stored event outcome .overview then event.generation else app.overviewRevision
    detailRevision := if Stored event outcome .detail then event.generation else app.detailRevision }

/-- The charts of a frame are painted. -/
def painted (layout : Layout) : ViewerApp Path :=
  { app with
    adapter :=
      ⟨(drawLayer platform app.adapter.detail app.shownDetail app.detailRevision layout.detail layout.dark).2,
        (drawLayer platform app.adapter.overview app.shownOverview app.overviewRevision layout.overview
          layout.dark).2⟩
    frame := app.shownDetail }

/-- Nothing but the filter and its list, the local error, the widths, the hover, the drag and the timer changes. -/
def Beside (app app' : ViewerApp Path) : Prop :=
  app' = { app with
    runFilter := app'.runFilter, runList := app'.runList, localError := app'.localError
    overviewWidth := app'.overviewWidth, detailWidth := app'.detailWidth
    hover := app'.hover, drag := app'.drag, zoomTask := app'.zoomTask }

end

section
variable {Path : Type} (platform : Platform Path)

inductive Move (allowed : WorkerOp → Prop) : ViewerApp Path → ViewerApp Path → Prop
  | close (app : ViewerApp Path) (path : String) (worker : WorkerHandle) (localError : Option String) :
      Move allowed app (app.closed path worker localError)
  | user (app : ViewerApp Path) (op : UserOp) (h : ∀ brush, op ≠ .moveBrush brush) :
      Move allowed app (app.setCore (app.core.change op))
  | gesture (app : ViewerApp Path) {brush : BrushState F64} {g outcome brush'} (hb : app.core.brush = some brush)
      (hg : brush.gesture g = some (outcome, brush')) : Move allowed app (app.setCore (app.core.moveBrush brush'))
  | request (app : ViewerApp Path) {request : ReadRequest} (h : app.core.Builds request) :
      Move allowed app (app.submit request)
  | receive (app : ViewerApp Path) {event events core outcome} (he : app.reader.events = event :: events)
      (ha : app.core.apply event = some (core, outcome)) : Move allowed app (app.received event events core outcome)
  | work (app : ViewerApp Path) {op : WorkerOp} {reader} (hop : allowed op) (hw : app.worker = .running)
      (h : app.reader.step op.toReader = some reader) : Move allowed app { app with reader := reader }
  | stop (app : ViewerApp Path) (hw : app.worker = .running) : Move allowed app { app with worker := .stopped }
  | paint (app : ViewerApp Path) (layout : Layout) : Move allowed app (app.painted platform layout)
  | beside {app app' : ViewerApp Path} (h : app.Beside app') : Move allowed app app'

def Moves (allowed : WorkerOp → Prop) : ViewerApp Path → ViewerApp Path → Prop :=
  Relation.ReflTransGen (Move platform allowed)

end

section
variable {Path : Type} {platform : Platform Path} {allowed : WorkerOp → Prop} {app : ViewerApp Path}

theorem Moves.inv {I : ViewerApp Path → Prop} (hI : ∀ app app', Move platform allowed app app' → I app → I app')
    {app app' : ViewerApp Path} (h : Moves platform allowed app app') (ha : I app) : I app' := by
  induction h with
  | refl => exact ha
  | tail _ hm ih => exact hI _ _ hm ih

theorem Moves.after {first last : ViewerApp Path} (middle : ViewerApp Path)
    (h : Moves platform allowed first middle)
    (h' : Moves platform allowed middle last) : Moves platform allowed first last :=
  Relation.ReflTransGen.trans h h'

theorem Move.one {app' : ViewerApp Path} (h : Move platform allowed app app') :
    Moves platform allowed app app' := Relation.ReflTransGen.single h

theorem moves_beside {app' : ViewerApp Path} (h : app.Beside app') : Moves platform allowed app app' :=
  (Move.beside h).one

/-! ## Requests -/

/-- Requests change neither what is selected nor what is shown. -/
structure Asks (app app' : ViewerApp Path) : Prop where
  selection : app'.core.selection = app.core.selection
  axis : app'.core.axis = app.core.axis
  brush : app'.core.brush = app.core.brush
  catalog : app'.core.catalog = app.core.catalog
  overview : app'.core.overview = app.core.overview
  detail : app'.core.detail = app.core.detail
  adapter : app'.adapter = app.adapter
  overviewRevision : app'.overviewRevision = app.overviewRevision
  detailRevision : app'.detailRevision = app.detailRevision

theorem Asks.refl (app : ViewerApp Path) : Asks app app := ⟨rfl, rfl, rfl, rfl, rfl, rfl, rfl, rfl, rfl⟩

theorem Asks.trans {app app' app'' : ViewerApp Path} (h : Asks app app') (h' : Asks app' app'') :
    Asks app app'' where
  selection := h'.selection.trans h.selection
  axis := h'.axis.trans h.axis
  brush := h'.brush.trans h.brush
  catalog := h'.catalog.trans h.catalog
  overview := h'.overview.trans h.overview
  detail := h'.detail.trans h.detail
  adapter := h'.adapter.trans h.adapter
  overviewRevision := h'.overviewRevision.trans h.overviewRevision
  detailRevision := h'.detailRevision.trans h.detailRevision

theorem asks_submit (app : ViewerApp Path) (request : ReadRequest) : Asks app (app.submit request) := by
  unfold submit
  cases app.worker with
  | absent => exact Asks.refl app
  | running => exact ⟨rfl, rfl, rfl, rfl, rfl, rfl, rfl, rfl, rfl⟩
  | stopped => exact ⟨rfl, rfl, rfl, rfl, rfl, rfl, rfl, rfl, rfl⟩

theorem asks_requestOverview (app : ViewerApp Path) : Asks app app.requestOverview := by
  unfold requestOverview
  split
  · exact Asks.refl app
  · exact asks_submit _ _

theorem asks_requestDetail (app : ViewerApp Path) : Asks app app.requestDetail := by
  unfold requestDetail
  split
  · exact Asks.refl app
  · split
    · exact Asks.refl app
    · exact asks_submit _ _

theorem moves_refreshCatalog : Moves platform allowed app app.refreshCatalog :=
  (Move.request app .refreshCatalog).one

theorem moves_requestOverview : Moves platform allowed app app.requestOverview := by
  unfold requestOverview
  cases h : app.core.curveSelection with
  | none => exact Relation.ReflTransGen.refl
  | some selection => exact (Move.request app (.requestOverview app.overviewWidth h)).one

theorem moves_requestDetail : Moves platform allowed app app.requestDetail := by
  unfold requestDetail
  cases h : app.core.curveSelection with
  | none => exact Relation.ReflTransGen.refl
  | some selection =>
    cases hv : app.core.selectedViewport with
    | none => exact Relation.ReflTransGen.refl
    | some viewport => exact (Move.request app (.requestDetail app.detailWidth h hv)).one

/-! ## Steps -/

theorem applyEvent_cases {app' : ViewerApp Path} (h : app.applyEvent platform = some app') :
    ∃ event events core outcome, app.reader.events = event :: events ∧ app.core.apply event = some (core, outcome) ∧
      app' = if outcome = .applied ∧ event.result.isOk then
          afterSnapshot platform { app with reader := (app.received event events core outcome).reader } event.kind
            event.generation
        else app.received event events core outcome := by
  unfold applyEvent at h
  cases hev : app.reader.events with
  | nil => simp [hev] at h
  | cons event events =>
    simp only [hev] at h
    obtain ⟨⟨core, outcome⟩, ha, h⟩ := Option.bind_eq_some_iff.mp h
    obtain ⟨reader, hd, rfl⟩ := Option.map_eq_some_iff.mp h
    have hreader : reader = (app.received event events core outcome).reader := by
      unfold Reader.deliver at hd
      simp only [hev, show app.reader.core.apply event = some (core, outcome) from ha, Option.map_some,
        Option.some.injEq] at hd
      exact hd.symm
    refine ⟨event, events, core, outcome, rfl, ha, ?_⟩
    subst hreader
    by_cases hs : outcome = .applied ∧ event.result.isOk = true
    · rw [if_pos hs, if_pos hs]
    · rw [if_neg hs, if_neg hs]
      have hstored : ∀ kind, ¬ Stored event outcome kind := fun kind hk => hs ⟨hk.1, hk.2.1⟩
      unfold received
      simp only [hstored, ite_false]

theorem moves_afterSnapshot (kind : ReadKind) (generation : Generation) (hkind : kind = .catalog) :
    Moves platform allowed app (app.afterSnapshot platform kind generation) := by
  subst hkind
  have hlist : Moves platform allowed app (app.rebuildRunList platform) := moves_beside rfl
  simp only [afterSnapshot]
  split
  · exact hlist.trans moves_requestOverview
  · exact hlist

theorem moves_applyEvent {app' : ViewerApp Path} (h : app.applyEvent platform = some app') :
    Moves platform allowed app app' := by
  obtain ⟨event, events, core, outcome, he, ha, rfl⟩ := applyEvent_cases h
  have hreceive : Moves platform allowed app (app.received event events core outcome) :=
    (Move.receive app he ha).one
  split
  · rename_i hs
    cases hk : event.kind with
    | catalog =>
      have happ : { app with reader := (app.received event events core outcome).reader } =
          app.received event events core outcome := by simp [received, Stored, hk]
      rw [happ]
      exact hreceive.trans (moves_afterSnapshot .catalog _ rfl)
    | overview =>
      have happ : ({ app with
          reader := (app.received event events core outcome).reader,
          overviewRevision := event.generation } : ViewerApp Path) =
            app.received event events core outcome := by simp [received, Stored, hk, hs]
      simp only [afterSnapshot]
      rw [happ]
      exact hreceive.trans moves_requestDetail
    | detail =>
      have happ : ({ app with
          reader := (app.received event events core outcome).reader,
          detailRevision := event.generation } : ViewerApp Path) =
            app.received event events core outcome := by simp [received, Stored, hk, hs]
      simp only [afterSnapshot]
      rw [happ]
      exact hreceive
  · exact hreceive

theorem moves_ite (c : Prop) [Decidable c] {app' : ViewerApp Path} (h : Moves platform allowed app app') :
    Moves platform allowed app (if c then app' else app) := by
  by_cases hc : c
  · rw [if_pos hc]; exact h
  · rw [if_neg hc]; exact Relation.ReflTransGen.refl

/-- The widths of the last frame's charts. -/
def resized (app : ViewerApp Path) (scaleFactor : F32) : ViewerApp Path :=
  { app with
    overviewWidth := (app.adapter.physicalWidths scaleFactor).1.getD app.overviewWidth
    detailWidth := (app.adapter.physicalWidths scaleFactor).2.getD app.detailWidth }

theorem moves_reconcile (scaleFactor : F32) :
    Moves platform allowed app (app.reconcileCanvasWidths scaleFactor) := by
  have hresized : Moves platform allowed app (app.resized scaleFactor) := moves_beside rfl
  exact (hresized.trans (moves_ite _ moves_requestOverview)).trans (moves_ite _ moves_requestDetail)

theorem asks_reconcile (app : ViewerApp Path) (scaleFactor : F32) :
    Asks app (app.reconcileCanvasWidths scaleFactor) := by
  have hite : ∀ (c : Prop) [Decidable c] {app app' : ViewerApp Path}, Asks app app' →
    Asks app (if c then app' else app) := by
    intro c _ app app' h
    by_cases hc : c
    · rw [if_pos hc]; exact h
    · rw [if_neg hc]; exact Asks.refl app
  have hresized : Asks app (app.resized scaleFactor) := ⟨rfl, rfl, rfl, rfl, rfl, rfl, rfl, rfl, rfl⟩
  exact (hresized.trans (hite _ (asks_requestOverview _))).trans (hite _ (asks_requestDetail _))

theorem moves_drag {brush brush' : BrushState F64} {g : Gesture F64} {outcome : Except ChartError Unit}
    (hb : app.core.brush = some brush) (hg : brush.gesture g = some (outcome, brush')) (drag : Option DragGesture)
    (zoomTask : Bool) :
    Moves platform allowed app
      { app.setCore (app.core.moveBrush brush') with drag := drag, zoomTask := zoomTask } :=
  (Move.gesture app hb hg).one.trans (moves_beside rfl)

theorem moveBrush_self {core : ViewerCore} {brush : BrushState F64} (h : core.brush = some brush) :
    core.moveBrush brush = core := by
  simp only [ViewerCore.moveBrush, h, Option.map_some]
  rw [← h]

/-- A drag leaves the brush or makes a gesture of it. -/
theorem updateBrushDrag_cases {brush : BrushState F64} {drag : DragGesture} {axis : F64}
    {moved : BrushState F64 × DragGesture} (h : updateBrushDrag brush drag axis = some moved) :
    moved.1 = brush ∨ ∃ g outcome, brush.gesture g = some (outcome, moved.1) := by
  have hgesture : ∀ g (drag' : DragGesture), (brush.gesture g).map (fun r => (r.2, drag')) = some moved →
      moved.1 = brush ∨ ∃ g outcome, brush.gesture g = some (outcome, moved.1) := by
    intro g drag' hm
    obtain ⟨⟨outcome, brush'⟩, hg, rfl⟩ := Option.map_eq_some_iff.mp hm
    exact Or.inr ⟨g, outcome, hg⟩
  unfold updateBrushDrag at h
  cases drag with
  | brushStart =>
    simp only at h
    split at h
    · exact hgesture _ _ h
    · cases h; exact Or.inl rfl
  | brushStop =>
    simp only at h
    split at h
    · exact hgesture _ _ h
    · cases h; exact Or.inl rfl
  | brushWindow lastAxis => exact hgesture _ _ h
  | detail lastX => cases h; exact Or.inl rfl

theorem moves_moveBrushDrag {cursor : Position F32} {app' : ViewerApp Path}
    (h : app.moveBrushDrag cursor = some app') :
    Moves platform allowed app app' := by
  unfold moveBrushDrag at h
  cases hd : app.drag with
  | none => simp only [hd] at h; cases h; exact Relation.ReflTransGen.refl
  | some drag =>
    cases hb : app.core.brush with
    | none => simp only [hd, hb] at h; cases h; exact Relation.ReflTransGen.refl
    | some brush =>
      cases hx : app.adapter.overviewAxisAt brush cursor with
      | none => simp only [hd, hb, hx] at h; cases h; exact Relation.ReflTransGen.refl
      | some axis =>
        simp only [hd, hb, hx] at h
        obtain ⟨moved, hm, rfl⟩ := Option.map_eq_some_iff.mp h
        rcases updateBrushDrag_cases hm with he | ⟨g, outcome, hg⟩
        · rw [he, moveBrush_self hb]
          exact moves_beside rfl
        · exact moves_drag hb hg _ app.zoomTask

theorem moves_moveDetailDrag {cursor : Position F32} {app' : ViewerApp Path}
    (h : app.moveDetailDrag cursor = some app') :
    Moves platform allowed app app' := by
  unfold moveDetailDrag at h
  split at h
  · rename_i lastX hd
    cases hb : app.core.brush with
    | none => simp only [hb] at h; cases h; exact Relation.ReflTransGen.refl
    | some brush =>
      cases hx : app.adapter.detailPanDelta brush.selected lastX cursor with
      | none => simp only [hb, hx] at h; cases h; exact Relation.ReflTransGen.refl
      | some delta =>
        simp only [hb, hx] at h
        obtain ⟨⟨outcome, brush'⟩, hg, rfl⟩ := Option.map_eq_some_iff.mp h
        exact moves_drag hb hg _ app.zoomTask
  · cases h; exact Relation.ReflTransGen.refl

theorem moves_zoomDetail {cursor : Position F32} {delta : F32} {app' : ViewerApp Path}
    (h : app.zoomDetail platform cursor delta = some app') : Moves platform allowed app app' := by
  unfold zoomDetail at h
  cases hb : app.core.brush with
  | none => simp only [hb] at h; cases h; exact Relation.ReflTransGen.refl
  | some brush =>
    cases hx : app.adapter.detailAxisAt brush.selected cursor with
    | none => simp only [hb, hx] at h; cases h; exact Relation.ReflTransGen.refl
    | some anchor =>
      simp only [hb, hx] at h
      obtain ⟨⟨outcome, brush'⟩, hg, rfl⟩ := Option.map_eq_some_iff.mp h
      dsimp only
      split
      · exact moves_drag hb hg app.drag true
      · exact Relation.ReflTransGen.refl

/-- What the steps of the worker's thread must meet. -/
def Works (allowed : WorkerOp → Prop) : AppOp → Prop
  | .work op => allowed op
  | _ => True

theorem step_moves {op : AppOp} {app' : ViewerApp Path} (hop : Works allowed op)
    (h : app.step platform op = some app') :
    Moves platform allowed app app' := by
  cases op with
  | openSource path spawned =>
    cases h
    cases spawned with
    | ok _ => exact (Move.close app path .running none).one.trans moves_refreshCatalog
    | error error => exact (Move.close app path .absent (some error)).one
  | pickerFailed error => cases h; exact moves_beside rfl
  | refresh =>
    cases h
    exact Moves.after { app with localError := none } (moves_beside rfl) moves_refreshCatalog
  | reset =>
    cases h
    simp only [onReset]
    split
    · exact (Move.user app .resetView (by simp)).one.trans moves_requestDetail
    · exact Relation.ReflTransGen.refl
  | selectAxis axis => cases h; exact (Move.user app (.selectAxis axis) (by simp)).one.trans moves_requestOverview
  | selectProject projectId =>
    cases h
    refine Relation.ReflTransGen.trans ?_ moves_refreshCatalog
    exact (Move.user app (.selectProject (some projectId)) (by simp)).one.trans (moves_beside rfl)
  | toggleRun runId =>
    cases h
    simp only [toggleRun]
    split
    · refine Relation.ReflTransGen.trans ?_ moves_refreshCatalog
      exact (Move.user app (.toggleRun runId) (by simp)).one.trans (moves_beside rfl)
    · exact moves_beside rfl
  | selectMetric metricKey =>
    cases h
    exact (Move.user app (.selectMetric (some metricKey)) (by simp)).one.trans moves_requestOverview
  | filterKey event =>
    cases h
    simp only [onFilterKey]
    split
    · exact Relation.ReflTransGen.refl
    · exact moves_beside rfl
  | beginBrushDrag cursor =>
    cases h
    simp only [beginBrushDrag]
    split
    · exact Relation.ReflTransGen.refl
    · exact moves_beside rfl
  | moveBrushDrag cursor => exact moves_moveBrushDrag h
  | beginDetailDrag cursor =>
    cases h
    simp only [beginDetailDrag]
    split
    · exact Relation.ReflTransGen.refl
    · exact moves_beside rfl
  | moveDetailDrag cursor => exact moves_moveDetailDrag h
  | finishDrag =>
    cases h
    simp only [finishDrag]
    split
    · exact Moves.after { app with drag := none } (moves_beside rfl) moves_requestDetail
    · exact Relation.ReflTransGen.refl
  | zoomDetail cursor delta => exact moves_zoomDetail h
  | zoomTimer =>
    simp only [step, onZoomTimer] at h
    split at h
    · cases h
      exact Moves.after { app with zoomTask := false } (moves_beside rfl) moves_requestDetail
    · cases h
  | hover cursor =>
    obtain ⟨shown, -, rfl⟩ := Option.map_eq_some_iff.mp h
    exact moves_beside rfl
  | leave => cases h; exact moves_beside rfl
  | draw layout =>
    cases h
    exact (moves_reconcile layout.scaleFactor).trans (Move.paint _ layout).one
  | event => exact moves_applyEvent h
  | work op =>
    simp only [step] at h
    split at h
    · rename_i hw
      obtain ⟨reader, hr, rfl⟩ := Option.map_eq_some_iff.mp h
      exact (Move.work app hop hw hr).one
    · cases h
  | workerStopped =>
    simp only [step] at h
    split at h
    · rename_i hw
      cases h
      exact (Move.stop app hw).one
    · cases h

end

end ViewerApp

end Pulseon
