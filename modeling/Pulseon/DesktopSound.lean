import Pulseon.FramesSound

/-!
# The desktop follows its protocols

Behind every run of the app stands a run of `Reader`, whose requests are built
from the core under increasing generations, and a run of `Reading`, whose events
carry what some store returned. So the curves that are shown were read for what
is selected.
-/

namespace Pulseon

/-! ## The reader -/

/-- A step of the reader that the desktop takes: requests are built from the core. -/
def Reader.Driven (allowed : WorkerOp → Prop) (r : Reader) : ReaderOp → Prop
  | .submit generation request => r.Legal (.submit generation request) ∧ r.core.Builds request
  | .execute session => allowed (.execute session)
  | _ => True

namespace ViewerApp

section
variable {Path : Type} {platform : Platform Path} {allowed : WorkerOp → Prop} {app app' : ViewerApp Path}

/-- The reader was driven from its start, and what it began is behind the counter. -/
structure Drives (allowed : WorkerOp → Prop) (app : ViewerApp Path) : Prop where
  run : Reaches Reader.step (Reader.Driven allowed) {} app.reader
  behind : ∀ b ∈ app.reader.begun, b.1 < app.nextGeneration

theorem drives_init : Drives allowed ({} : ViewerApp Path) := ⟨reaches_refl _ _, by simp⟩

theorem Drives.change (h : app.Drives allowed) (op : UserOp) : (app.setCore (app.core.change op)).Drives allowed :=
  ⟨h.run.next Reader.step (a := .change op) trivial rfl, h.behind⟩

theorem move_drives (hm : Move platform allowed app app') (h : app.nextGeneration < u64Max → app.Drives allowed)
    (hlt : app'.nextGeneration < u64Max) : app'.Drives allowed := by
  have happ := h (move_unsaturated hm hlt)
  cases hm with
  | close path worker localError => exact ⟨reaches_refl _ _, by simp [closed]⟩
  | user op _ => exact happ.change op
  | gesture _ _ => exact happ.change (.moveBrush _)
  | request hb =>
    unfold submit at hlt ⊢
    cases hw : app.worker with
    | absent => simpa [hw] using happ
    | running =>
      simp only [hw] at hlt ⊢
      have hnext := unsaturated hlt
      refine ⟨happ.run.next Reader.step (a := .submit app.nextGeneration _) ⟨happ.behind, hb⟩ rfl,
        fun b hbegun => ?_⟩
      rw [hnext]
      rcases List.mem_cons.mp hbegun with rfl | hbegun
      · exact Nat.lt_succ_self _
      · exact Nat.lt_succ_of_lt (happ.behind b hbegun)
    | stopped =>
      simp only [hw] at hlt ⊢
      refine ⟨happ.run, fun b hbegun => ?_⟩
      rw [unsaturated hlt]
      exact Nat.lt_succ_of_lt (happ.behind b hbegun)
  | receive he ha =>
    refine ⟨happ.run.next Reader.step (a := .deliver) trivial ?_, happ.behind⟩
    simp only [Reader.step, Reader.deliver, he]
    rw [show app.reader.core.apply _ = _ from ha]
    rfl
  | @work op reader hop _ hr =>
    have hbegun : reader.begun = app.reader.begun := by
      rcases Reader.worker_step hr with ⟨change, he, -⟩ | ⟨generation, request, he, -⟩ | ⟨he, -⟩ | ⟨-, hb, -⟩
      · cases op <;> cases he
      · cases op <;> cases he
      · cases op <;> cases he
      · exact hb
    refine ⟨happ.run.next Reader.step (a := op.toReader) ?_ hr, fun b hb => happ.behind b (hbegun ▸ hb)⟩
    cases op with
    | execute session => exact hop
    | _ => trivial
  | stop _ => exact ⟨happ.run, happ.behind⟩
  | paint layout => exact ⟨happ.run, happ.behind⟩
  | beside hb => rw [hb]; exact ⟨happ.run, happ.behind⟩

end

/-! ## The requests and what they return -/

/-- What the session of some store returns, which has each run once. -/
def Answers (sourceText : StorageError → String) (queryText : QueryError → String) (accepts : Int → Bool)
    (request : ReadRequest) (snapshot : ReadSnapshot) : Prop :=
  ∃ source : Source, (source.runs.map Run.runId).Nodup ∧
    (execute (.ok (source.session sourceText queryText accepts)) ⟨0, request⟩).result = .ok snapshot

/-- The reading has the core, and every request and event on its way is one of its own. -/
structure Follows {Path : Type} (returns : ReadRequest → ReadSnapshot → Prop) (app : ViewerApp Path)
    (reading : Reading) : Prop where
  core : reading.core = app.core
  asked : ∀ t ∈ app.reader.channel ++ app.reader.worker.requests, (t.generation, t.request) ∈ reading.begun
  answered : ∀ event ∈ app.reader.events, ∃ request, (event.generation, request) ∈ reading.begun ∧
    event.kind = request.kind ∧ ∀ snapshot, event.result = .ok snapshot → returns request snapshot
  behind : ∀ b ∈ reading.begun, b.1 < app.nextGeneration

section
variable {Path : Type} {platform : Platform Path} {app app' : ViewerApp Path} {sourceText : StorageError → String}
  {queryText : QueryError → String} {accepts : Int → Bool}

theorem follows_init {returns : ReadRequest → ReadSnapshot → Prop} : Follows returns ({} : ViewerApp Path) {} :=
  ⟨rfl, by simp [WorkerLoop.requests], by simp, by simp⟩

theorem Follows.congr {returns : ReadRequest → ReadSnapshot → Prop} {reading : Reading}
    (h : Follows returns app reading)
    (hreader : app'.reader = app.reader) (hnext : app.nextGeneration ≤ app'.nextGeneration) :
    Follows returns app' reading where
  core := by rw [h.core, ViewerApp.core, ViewerApp.core, hreader]
  asked := hreader ▸ h.asked
  answered := hreader ▸ h.answered
  behind b hb := lt_of_lt_of_le (h.behind b hb) hnext

/-- Some reading is followed. -/
def Tracked (returns : ReadRequest → ReadSnapshot → Prop) (app : ViewerApp Path) : Prop :=
  ∃ reading, Reaches Reading.step (Reading.Legal returns) {} reading ∧ Follows returns app reading

section
variable {returns : ReadRequest → ReadSnapshot → Prop} (h : app.Tracked returns)
include h

theorem Tracked.change (op : UserOp) : (app.setCore (app.core.change op)).Tracked returns := by
  obtain ⟨reading, hrun, hf⟩ := h
  exact ⟨_, hrun.next Reading.step (a := .change op) trivial rfl,
    congrArg (fun core => core.change op) hf.core, hf.asked, hf.answered, hf.behind⟩

theorem Tracked.congr (hreader : app'.reader = app.reader) (hnext : app.nextGeneration ≤ app'.nextGeneration) :
    app'.Tracked returns := by
  obtain ⟨reading, hrun, hf⟩ := h
  exact ⟨reading, hrun, hf.congr hreader hnext⟩

theorem Tracked.request {request : ReadRequest} (hb : app.core.Builds request)
    (hlt : (app.submit request).nextGeneration < u64Max) : (app.submit request).Tracked returns := by
  unfold submit at hlt ⊢
  cases hw : app.worker with
  | absent => simpa [hw] using h
  | stopped =>
    simp only [hw] at hlt ⊢
    exact h.congr rfl (by simp [unsaturated hlt])
  | running =>
    simp only [hw] at hlt ⊢
    obtain ⟨reading, hrun, hf⟩ := h
    have hnew : reading.Legal returns (.begin app.nextGeneration request) :=
      ⟨hf.core ▸ hb, fun b hin => Nat.ne_of_lt (hf.behind b hin)⟩
    refine ⟨_, hrun.next Reading.step hnew rfl, congrArg
      (fun core => core.begin app.nextGeneration request) hf.core,
      fun t ht => ?_, fun event he => ?_, fun b hin => ?_⟩
    · simp only [Reader.submit, List.append_assoc, List.mem_append, List.mem_singleton] at ht
      rcases ht with ht | rfl | ht
      · exact List.mem_cons_of_mem _ (hf.asked t (List.mem_append_left _ ht))
      · exact List.mem_cons_self
      · exact List.mem_cons_of_mem _ (hf.asked t (List.mem_append_right _ ht))
    · obtain ⟨request, hin, hk, hret⟩ := hf.answered event he
      exact ⟨request, List.mem_cons_of_mem _ hin, hk, hret⟩
    · rw [unsaturated hlt]
      rcases List.mem_cons.mp hin with rfl | hin
      · exact Nat.lt_succ_self _
      · exact Nat.lt_succ_of_lt (hf.behind b hin)

theorem Tracked.receive {event : ReadEvent} {events : List ReadEvent} {core : ViewerCore} {outcome : ApplyOutcome}
    (he : app.reader.events = event :: events) (ha : app.core.apply event = some (core, outcome)) :
    (app.received event events core outcome).Tracked returns := by
  obtain ⟨reading, hrun, hf⟩ := h
  have hlegal : reading.Legal returns (.apply event) := hf.answered event (he ▸ List.mem_cons_self)
  refine ⟨{ reading with core := core }, hrun.next Reading.step hlegal ?_, rfl, hf.asked,
    fun e hin => ?_, hf.behind⟩
  · simp [Reading.step, hf.core, ha]
  · exact hf.answered e (he ▸ List.mem_cons_of_mem _ hin)

end

theorem Tracked.work {op : WorkerOp} (h : app.Tracked (Answers sourceText queryText accepts))
    (hallowed : ReadsStore sourceText queryText accepts op) {reader : Reader}
    (hr : app.reader.step op.toReader = some reader) :
    ({ app with reader := reader } : ViewerApp Path).Tracked (Answers sourceText queryText accepts) := by
  obtain ⟨reading, hrun, hf⟩ := h
  obtain ⟨hcore, hrequests, hevents⟩ := work_effect hr
  refine ⟨reading, hrun, hf.core.trans hcore.symm, fun t ht =>
    hf.asked t (hrequests t ht), fun event he => ?_, hf.behind⟩
  rcases hevents event he with he | ⟨session, t, rfl, ht, rfl⟩
  · exact hf.answered event he
  · refine ⟨t.request, hf.asked t (List.mem_append_right _ ht), rfl, fun snapshot hs => ?_⟩
    cases session with
    | error error => cases hs
    | ok s =>
      obtain ⟨source, hn, rfl⟩ := hallowed s rfl
      exact ⟨source, hn, hs⟩

theorem move_tracked (hm : Move platform (ReadsStore sourceText queryText accepts) app app')
    (h : app.nextGeneration < u64Max → app.Tracked (Answers sourceText queryText accepts))
    (hlt : app'.nextGeneration < u64Max) : app'.Tracked (Answers sourceText queryText accepts) := by
  have happ := h (move_unsaturated hm hlt)
  cases hm with
  | close path worker localError =>
    exact ⟨{}, reaches_refl _ _, rfl, by simp [closed, WorkerLoop.requests], by simp [closed], by simp⟩
  | user op _ => exact happ.change op
  | gesture _ _ => exact happ.change (.moveBrush _)
  | request hb => exact happ.request hb hlt
  | receive he ha => exact happ.receive he ha
  | work hop _ hr => exact happ.work hop hr
  | stop _ => exact happ.congr rfl le_rfl
  | paint layout => exact happ.congr rfl le_rfl
  | beside hb => rw [hb]; exact happ.congr rfl le_rfl

end

/-! ## Runs -/

section
variable {Path : Type} {platform : Platform Path} {ops : List AppOp} {app : ViewerApp Path}

theorem exec_drives {allowed : WorkerOp → Prop} (hm : Meets (step platform) (fun _ op => Works allowed op) {} ops)
    (h : exec (step platform) {} ops = some app) (hlt : app.nextGeneration < u64Max) : app.Drives allowed :=
  @exec_inv _ _ (step platform) _ (fun app => app.nextGeneration < u64Max → app.Drives allowed)
    (fun _ _ _ hop hs => Moves.inv (fun _ _ => move_drives) (step_moves hop hs)) _ _ _ hm h
      (fun _ => drives_init) hlt

theorem Drives.carried {allowed : WorkerOp → Prop} (h : app.Drives allowed) :
    app.reader.InOrder ∧ app.reader.Carried := by
  refine @Reaches.inv _ _ Reader.step _ (fun r => r.InOrder ∧ r.Carried)
    (fun r op r' hd hs hr => ?_) _ _ h.run reader_init
  have hl : r.Legal op := by
    cases op with
    | submit generation request => exact hd.1
    | _ => trivial
  exact ⟨hr.1.step hl hs, hr.2.step hr.1 hs⟩

/-- What is on its way was begun before. -/
theorem Drives.onTheWay {allowed : WorkerOp → Prop} (h : app.Drives allowed) :
    (∀ t ∈ app.reader.channel ++ app.reader.worker.requests, t.generation < app.nextGeneration) ∧
      ∀ event ∈ app.reader.events, event.generation < app.nextGeneration := by
  have hbegun := h.carried.2.begun
  constructor
  · intro t ht
    exact h.behind t.tag (hbegun t.tag (List.mem_append_left _ (List.mem_map_of_mem ht)))
  · intro event he
    exact h.behind event.tag (hbegun event.tag (List.mem_append_right _ (List.mem_map_of_mem he)))

/-- The app drives the reader, and no stream is pending once nothing is on its way. -/
theorem desktop_drives_reader {allowed : WorkerOp → Prop}
    (hm : Meets (step platform) (fun _ op => Works allowed op) {} ops) (h : exec (step platform) {} ops = some app)
    (hlt : app.nextGeneration < u64Max) :
    Reaches Reader.step (Reader.Driven allowed) {} app.reader ∧
      (app.reader.Quiet → ∀ kind, app.core.isPending kind = false) := by
  have hd := exec_drives hm h hlt
  exact ⟨hd.run, not_pending_of_quiet hd.carried.2⟩

/-- After the run that shows the curve nothing is on its way. -/
theorem pairOps_rests : ∃ app, exec (step positions) {} pairOps = some app ∧ app.nextGeneration < u64Max ∧
    app.reader.Quiet ∧ app.drag = none ∧ app.zoomTask = false ∧ app.error = none ∧ app.core.overview.isSome ∧
    app.core.detail.isSome ∧ app.core.selection = ⟨some "p", ["r"], some "k"⟩ ∧ app.core.axis = .step := by
  have hrun : (exec (step positions) {} pairOps).any (fun app => decide (app.nextGeneration < u64Max ∧
      (app.reader.channel.isEmpty ∧ app.reader.worker.requests.isEmpty ∧ app.reader.events.isEmpty) ∧
      app.drag = none ∧ app.zoomTask = false ∧ app.error = none ∧
      app.core.overview.isSome ∧ app.core.detail.isSome ∧
      app.core.selection = ⟨some "p", ["r"], some "k"⟩ ∧ app.core.axis = .step)) = true := by decide +kernel
  obtain ⟨app, happ, h⟩ := (Option.any_eq_true _ _).mp hrun
  obtain ⟨hlt, ⟨hc, hw, he⟩, hrest⟩ := of_decide_eq_true h
  exact ⟨app, happ, hlt, ⟨List.isEmpty_iff.mp hc, List.isEmpty_iff.mp hw, List.isEmpty_iff.mp he⟩, hrest⟩

theorem pairOps_meets :
    Meets (step positions) (fun _ op => Works (ReadsStore (fun _ => "") (fun _ => "") nearEpoch) op) {} pairOps :=
  meets_of_forall _ (fun _ op hop => pairOps_works op hop) _

theorem desktop_drives_reader_pair : ∃ app, exec (step positions) {} pairOps = some app ∧
    Reaches Reader.step (Reader.Driven (ReadsStore (fun _ => "") (fun _ => "") nearEpoch)) {} app.reader ∧
    ∀ kind, app.core.isPending kind = false := by
  obtain ⟨app, happ, hlt, hquiet, -⟩ := pairOps_rests
  obtain ⟨hrun, hpending⟩ := desktop_drives_reader pairOps_meets happ hlt
  exact ⟨app, happ, hrun, hpending hquiet⟩

variable {sourceText : StorageError → String} {queryText : QueryError → String} {accepts : Int → Bool}

theorem exec_tracked
    (hm : Meets (step platform) (fun _ op => Works (ReadsStore sourceText queryText accepts) op) {} ops)
    (h : exec (step platform) {} ops = some app) (hlt : app.nextGeneration < u64Max) :
    app.Tracked (Answers sourceText queryText accepts) :=
  @exec_inv _ _ (step platform) _
    (fun app => app.nextGeneration < u64Max → app.Tracked (Answers sourceText queryText accepts))
    (fun _ _ _ hop hs => Moves.inv (fun _ _ => move_tracked) (step_moves hop hs)) _ _ _ hm h
    (fun _ => ⟨{}, reaches_refl _ _, follows_init⟩) hlt

theorem answers_discover {request : DiscoveryRequest} {snapshot : CatalogSnapshot}
    (h : Answers sourceText queryText accepts (.discover request) (.catalog snapshot)) :
    ∃ source : Source, (source.runs.map Run.runId).Nodup ∧ source.discover request = .ok snapshot := by
  obtain ⟨source, hn, hs⟩ := h
  simp only [execute, Source.session, bind, Except.bind, pure, Except.pure] at hs
  cases hd : source.discover request with
  | error e => simp [hd, Except.mapError] at hs
  | ok catalog =>
    simp only [hd, Except.mapError, Except.ok.injEq, ReadSnapshot.catalog.injEq] at hs
    exact ⟨source, hn, hs ▸ hd⟩

theorem answers_catalog {request : ReadRequest} {snapshot : CatalogSnapshot}
    (h : Answers sourceText queryText accepts request (.catalog snapshot)) :
      (snapshot.runs.map Run.runId).Nodup := by
  obtain ⟨source, hn, hs⟩ := id h
  have hk := execute_kind hs
  cases request with
  | discover request =>
    obtain ⟨store, hstore, hd⟩ := answers_discover h
    exact discover_nodup hstore hd
  | _ => cases hk

theorem answers_overview {request : OverviewRequest} {snapshot : CurveSnapshot}
    (h : Answers sourceText queryText accepts (.overview request) (.overview snapshot)) :
    ∃ source : Source, (source.runs.map Run.runId).Nodup ∧
      queryOverview accepts source.toStore request = .ok snapshot := by
  obtain ⟨source, hn, hs⟩ := h
  simp only [execute, Source.session, bind, Except.bind, pure, Except.pure] at hs
  cases hq : queryOverview accepts source.toStore request with
  | error e => simp [hq, Except.mapError] at hs
  | ok curves =>
    simp only [hq, Except.mapError, Except.ok.injEq, ReadSnapshot.overview.injEq] at hs
    exact ⟨source, hn, hs ▸ hq⟩

theorem answers_detail {request : DetailRequest} {snapshot : CurveSnapshot}
    (h : Answers sourceText queryText accepts (.detail request) (.detail snapshot)) :
    ∃ source : Source, (source.runs.map Run.runId).Nodup ∧
      queryDetail accepts source.toStore request = .ok snapshot := by
  obtain ⟨source, hn, hs⟩ := h
  simp only [execute, Source.session, bind, Except.bind, pure, Except.pure] at hs
  cases hq : queryDetail accepts source.toStore request with
  | error e => simp [hq, Except.mapError] at hs
  | ok curves =>
    simp only [hq, Except.mapError, Except.ok.injEq, ReadSnapshot.detail.injEq] at hs
    exact ⟨source, hn, hs ▸ hq⟩

theorem Tracked.shown (h : app.Tracked (Answers sourceText queryText accepts)) :
    ∃ reading, reading.core = app.core ∧ Shown (Answers sourceText queryText accepts) reading := by
  obtain ⟨reading, hrun, hf⟩ := h
  exact ⟨reading, hf.core, hrun.inv Reading.step (fun _ _ _ => Shown.step fun _ _ => answers_catalog) shown_init⟩

/-- Whatever the order of actions, reads and events, the curves that are stored
are what a store returned for what is selected. -/
theorem desktop_shows_selection
    (hm : Meets (step platform) (fun _ op => Works (ReadsStore sourceText queryText accepts) op) {} ops)
    (h : exec (step platform) {} ops = some app) (hlt : app.nextGeneration < u64Max) :
    (∀ snapshot, app.core.overview = some snapshot → ∃ source : Source, ∃ request : OverviewRequest,
      (source.runs.map Run.runId).Nodup ∧ queryOverview accepts source.toStore request = .ok snapshot ∧
        app.core.Selects request.selection) ∧
    (∀ snapshot, app.core.detail = some snapshot → ∃ source : Source, ∃ request : DetailRequest,
      (source.runs.map Run.runId).Nodup ∧ queryDetail accepts source.toStore request = .ok snapshot ∧
        app.core.Selects request.selection) ∧
    app.core.selection.Limited := by
  obtain ⟨reading, hcore, hs⟩ := (exec_tracked hm h hlt).shown
  rw [← hcore]
  refine ⟨fun snapshot he => ?_, fun snapshot he => ?_, hs.limited⟩
  · obtain ⟨generation, request, -, hk, hret, hc⟩ := hs.overview snapshot he
    cases request with
    | overview request =>
      obtain ⟨source, hn, hq⟩ := answers_overview hret
      exact ⟨source, request, hn, hq, hc⟩
    | _ => cases hk
  · obtain ⟨generation, request, -, hk, hret, hc⟩ := hs.detail snapshot he
    cases request with
    | detail request =>
      obtain ⟨source, hn, hq⟩ := answers_detail hret
      exact ⟨source, request, hn, hq, hc⟩
    | _ => cases hk

theorem desktop_shows_selection_pair : ∃ app snapshot, exec (step positions) {} pairOps = some app ∧
    app.core.detail = some snapshot ∧ ∃ source : Source, ∃ request : DetailRequest,
      queryDetail nearEpoch source.toStore request = .ok snapshot ∧ request.selection = ⟨["r"], "k", .step⟩ := by
  obtain ⟨app, happ, hlt, -, -, -, -, -, hdetail, hselection, haxis⟩ := pairOps_rests
  obtain ⟨snapshot, hs⟩ := Option.isSome_iff_exists.mp hdetail
  obtain ⟨source, request, -, hq, hruns, hmetric, hsel⟩ :=
    (desktop_shows_selection pairOps_meets happ hlt).2.1 snapshot hs
  refine ⟨app, snapshot, happ, hs, source, request, hq, ?_⟩
  rw [hselection] at hruns hmetric
  rw [haxis] at hsel
  obtain ⟨⟨runIds, metricKey, axis⟩, viewport, width⟩ := request
  cases hruns
  cases hmetric
  cases hsel
  rfl

end

end ViewerApp

end Pulseon
