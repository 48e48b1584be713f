import Pulseon.BrushHeld
import Pulseon.DesktopSound

/-!
# The detail chart catches up with the brush

A gesture moves the brush away from what the detail chart covers. The chart is
asked for anew when the gesture ends, when the zoom's timer fires and when a new
overview moves the brush. So once nothing is on its way, no gesture is under way
and no error is shown, the chart covers what is selected.
-/

namespace Pulseon

open F64

/-! ## The range of an overview -/

/-- Bounds within a viewport. -/
def Within (viewport : AlignmentViewport) (bounds : Option (Int × Int)) : Prop :=
  ∀ p, bounds = some p → viewport.start ≤ p.1 ∧ p.1 ≤ p.2 ∧ p.2 ≤ viewport.stop

/-- A range of axis values that a double renders between zero and two to the power of 63. -/
def CurveSnapshot.Ranged (snapshot : CurveSnapshot) : Prop :=
  ∀ range, snapshot.realRange = some range → 0 ≤ range.start ∧ range.stop ≤ i64Max

section
variable {accepts : Int → Bool} {store : Store} {selection : CurveSelection} {viewport : AlignmentViewport}

theorem within_none : Within viewport none := fun _ h => by cases h

theorem extendBounds_within {bounds : Option (Int × Int)} (hb : Within viewport bounds) {n : Int}
    (hn : viewport.holds n = true) : Within viewport (extendBounds bounds n) := by
  intro p hp
  simp only [AlignmentViewport.holds, Bool.and_eq_true, decide_eq_true_eq] at hn
  cases bounds with
  | none =>
    cases hp
    exact ⟨hn.1, le_rfl, hn.2⟩
  | some q =>
    obtain ⟨h1, h2, h3⟩ := hb q rfl
    cases hp
    exact ⟨le_min h1 hn.1, le_trans (min_le_left _ _) (le_trans h2 (le_max_left _ _)), max_le h3 hn.2⟩

theorem evidenceBounds_within {bounds : Option (Int × Int)} (hb : Within viewport bounds)
    (evidence : AlignedMetricResult) :
    Within viewport (evidenceBounds viewport bounds evidence) := by
  unfold evidenceBounds
  split
  · have hall : ∀ n ∈ (evidence.points.map AlignedMetricPoint.axisValue).filter viewport.holds,
      viewport.holds n = true :=
      fun n hn => (List.mem_filter.mp hn).2
    generalize (evidence.points.map AlignedMetricPoint.axisValue).filter viewport.holds = values at hall
    induction values generalizing bounds with
    | nil => exact hb
    | cons n rest ih =>
      exact ih (extendBounds_within hb (hall n List.mem_cons_self)) fun m hm => hall m (List.mem_cons_of_mem _ hm)
  · exact hb

theorem curvesOf_within {reduction : AlignmentReduction} {runs : List Run} {bounds : Option (Int × Int)}
    {series : List CurveSeriesSnapshot} {out : Option (Int × Int) × List CurveSeriesSnapshot}
    (hb : Within viewport bounds)
    (h : curvesOf accepts store selection viewport reduction runs bounds series = .ok out) :
      Within viewport out.1 := by
  induction runs generalizing bounds series with
  | nil => cases h; exact hb
  | cons run rest ih =>
    unfold curvesOf at h
    cases hs : curveSeries accepts store selection viewport reduction run with
    | error e => rw [hs] at h; cases h
    | ok first =>
      rw [hs] at h
      exact ih (evidenceBounds_within hb first.evidence) h

/-- Widening leaves the range between zero and the greatest `i64`. -/
theorem brushableRange_within {start stop : Int} (h0 : 0 ≤ start) (h : start ≤ stop) (ht : stop ≤ i64Max)
    {range : AlignmentViewport} (hr : brushableRange (start, stop) = .ok range) : 0 ≤ range.start ∧
      range.stop ≤ i64Max := by
  have hi : ∀ n, 0 ≤ n → n ≤ i64Max → I64 n := fun n hn hm => ⟨by omega, hm⟩
  obtain ⟨range', hok, hs, he⟩ := brushableRange_ok (hi start h0 (by omega)) (hi stop (by omega) ht) h
  rw [hok] at hr
  cases hr
  rw [hs, he]
  obtain ⟨-, e⟩ | ⟨hlt, -, e⟩ | ⟨-, next, -, hnext, e, -⟩ | ⟨rfl, -, e⟩ :=
      widenedBounds_cases (hi start h0 (by omega)) (hi stop (by omega) ht) h
  · rw [e]; exact ⟨h0, ht⟩
  · rw [e]; exact ⟨h0, hlt⟩
  · rw [e]; exact ⟨h0, hnext.2⟩
  · rw [e]; exact ⟨by decide, le_rfl⟩

theorem Queried.ranged {snapshot : CurveSnapshot} (h : Queried accepts store selection overviewViewport snapshot) :
    snapshot.Ranged := by
  obtain ⟨runs, reduction, bounds, -, hcurves, hrange⟩ := h.range
  have hwithin := curvesOf_within within_none hcurves
  intro range hr
  cases bounds with
  | none =>
    simp only [realRangeOf, Except.ok.injEq] at hrange
    rw [← hrange] at hr
    cases hr
  | some p =>
    obtain ⟨h1, h2, h3⟩ := hwithin p rfl
    cases hb : brushableRange p with
    | error e => simp [realRangeOf, attempt, hb, Except.mapError, Except.map] at hrange
    | ok range' =>
      simp only [realRangeOf, attempt, hb, Except.mapError, Except.map, Except.ok.injEq] at hrange
      rw [← hrange] at hr
      cases hr
      exact brushableRange_within h1 h2 h3 hb

end

/-! ## The brush of a core -/

theorem bounded_rendered {range : AlignmentViewport} (h0 : 0 ≤ range.start) (ht : range.stop ≤ i64Max)
    {home : AxisRange F64} (h : AxisRange.new (ofInt range.start) (ofInt range.stop) = .ok home) :
      home.Bounded := by
  obtain ⟨hs, he⟩ := range_of_new h
  have hstart : I64 range.start := ⟨by omega, by have := range.ordered; omega⟩
  have hstop : I64 range.stop := ⟨by have := range.ordered; omega, ht⟩
  constructor
  · rw [hs]
    exact ofUnits_nonneg (Int.mul_nonneg h0 (Int.natCast_nonneg _))
  · rw [he, signedUnits_ofInt (I64.limit hstop), topUnits_eq]
    exact Int.mul_le_mul_of_nonneg_right (I64.rendered hstop).2 (Int.natCast_nonneg _)

namespace ViewerCore

/-- The brush is held, and curves are there or expected only for a selection that can be asked for. -/
structure Steady (core : ViewerCore) : Prop where
  held : ∀ brush, core.brush = some brush → brush.Held
  selecting : core.curveSelection = none → core.detail = none ∧ core.expected .detail = none ∧
    core.expected .overview = none

section
variable {core core' : ViewerCore}

theorem brushOver_held {previous : Option (BrushState F64)} {range : AlignmentViewport} (h0 : 0 ≤ range.start)
    (ht : range.stop ≤ i64Max) {brush : BrushState F64} (h : brushOver previous range = some (some brush)) :
      brush.Held := by
  unfold brushOver at h
  split at h
  · cases h
  · rename_i home hhome
    split at h
    · cases h
    · rename_i fresh hfresh
      have hheld := BrushState.held_new (bounded_rendered h0 ht hhome) hfresh
      split at h
      · cases h; exact hheld
      · obtain ⟨first, hf, h⟩ := Option.bind_eq_some_iff.mp h
        cases first with
        | error e => cases h
        | ok moved =>
          obtain ⟨second, hs, h⟩ := Option.bind_eq_some_iff.mp h
          cases second with
          | error e => cases h
          | ok last =>
            cases h
            exact (hheld.resizeStart hf).resizeEnd hs

/-- The user's changes keep the brush, reset it or drop it. -/
theorem change_brush {op : UserOp} (hop : ∀ brush, op ≠ .moveBrush brush) {brush : BrushState F64}
    (hb : (core.change op).brush = some brush) : core.brush = some brush ∨ ∃ old, core.brush = some old ∧
      brush = old.reset := by
  cases op with
  | selectProject projectId =>
    simp only [ViewerCore.change, selectProject] at hb
    split at hb
    · exact Or.inl hb
    · cases hb
  | toggleRun runId =>
    simp only [ViewerCore.change, toggleRun] at hb
    split_ifs at hb
    · cases hb
    · exact Or.inl hb
    · cases hb
  | selectMetric metricKey =>
    simp only [ViewerCore.change, selectMetric] at hb
    split at hb
    · exact Or.inl hb
    · cases hb
  | selectAxis axis =>
    simp only [ViewerCore.change, selectAxis] at hb
    split at hb
    · exact Or.inl hb
    · cases hb
  | resetSource => cases hb
  | resetView =>
    obtain ⟨old, ho, rfl⟩ := Option.map_eq_some_iff.mp hb
    exact Or.inr ⟨old, ho, rfl⟩
  | moveBrush brush => exact absurd rfl (hop brush)

/-- An event keeps the brush, drops it or lays it over the range of an overview. -/
theorem apply_brush {event : ReadEvent} {outcome : ApplyOutcome} (ha : core.apply event = some (core', outcome))
    {brush : BrushState F64} (hb : core'.brush = some brush) : core.brush = some brush ∨
      ∃ snapshot range, event.result = .ok (.overview snapshot) ∧ snapshot.realRange = some range ∧
        brushOver core.brush range = some (some brush) := by
  rcases apply_cases core ha with ⟨rfl, -⟩ | ⟨-, -, hcase⟩
  · exact Or.inl hb
  rcases hcase with ⟨error, -, rfl⟩ | ⟨s, -, -, rfl⟩ | ⟨s, hs, -, ho⟩ | ⟨s, -, -, rfl⟩
  · exact Or.inl hb
  · refine Or.inl ?_
    unfold applyCatalog at hb
    dsimp only at hb
    split at hb <;> exact hb
  · obtain ⟨held, hheld, rfl⟩ := Option.map_eq_some_iff.mp ho
    obtain rfl : held = some brush := by
      cases held with
      | none => cases hb
      | some b => exact hb
    unfold overviewBrush at hheld
    cases hrange : s.realRange with
    | none => simp [hrange] at hheld
    | some range =>
      simp only [hrange] at hheld
      exact Or.inr ⟨s, range, hs, hrange, hheld⟩
  · exact Or.inl hb

theorem steady_init : Steady {} := ⟨fun _ h => (by cases h), fun _ => ⟨rfl, rfl, rfl⟩⟩

theorem curveSelection_congr (hs : core'.selection = core.selection) (ha : core'.axis = core.axis) :
    core'.curveSelection = core.curveSelection := by
  unfold curveSelection
  rw [hs, ha]

variable (h : core.Steady)
include h

theorem Steady.keeps (hk : Keeps core core') (hb : ∀ brush, core'.brush = some brush → brush.Held) :
    core'.Steady where
  held := hb
  selecting hn := by
    obtain ⟨hd, hed, heo⟩ := h.selecting ((curveSelection_congr hk.selection hk.axis) ▸ hn)
    refine ⟨?_, ?_, ?_⟩
    · rcases hk.detail with e | e
      · exact e.trans hd
      · exact e
    · rcases hk.expected .detail with e | e
      · exact e.trans hed
      · exact e
    · rcases hk.expected .overview with e | e
      · exact e.trans heo
      · exact e

omit h in
theorem Steady.clears (hc : Clears core core') (hb : ∀ brush, core'.brush = some brush → brush.Held) :
    core'.Steady :=
  ⟨hb, fun _ => ⟨hc.detail, hc.expectedDetail, hc.expectedOverview⟩⟩

theorem Steady.effect (he : Keeps core core' ∨ Clears core core')
    (hb : ∀ brush, core'.brush = some brush → brush.Held) :
    core'.Steady := by
  rcases he with he | he
  · exact h.keeps he hb
  · exact Steady.clears he hb

theorem Steady.moveBrush {brush : BrushState F64} (hheld : brush.Held) : (core.moveBrush brush).Steady := by
  refine h.effect (change_effect core (.moveBrush brush)) fun b hb => ?_
  obtain ⟨_, -, rfl⟩ := Option.map_eq_some_iff.mp hb
  exact hheld

theorem Steady.change (op : UserOp) (hop : ∀ brush, op ≠ .moveBrush brush) : (core.change op).Steady := by
  refine h.effect (change_effect core op) fun brush hb => ?_
  obtain hb | ⟨old, ho, rfl⟩ := change_brush hop hb
  · exact h.held brush hb
  · exact (h.held old ho).reset

theorem Steady.begin {request : ReadRequest} (hb : core.Builds request) (generation : Generation) :
    (core.begin generation request).Steady where
  held := h.held
  selecting hn := by
    have hn' : core.curveSelection = none := hn
    obtain ⟨hd, hed, heo⟩ := h.selecting hn'
    cases hb with
    | refreshCatalog =>
      exact ⟨hd, by simpa [ViewerCore.begin, ReadRequest.kind] using hed, by
        simpa [ViewerCore.begin, ReadRequest.kind] using heo⟩
    | requestOverview width hs => exact absurd (hn'.symm.trans hs) (by simp)
    | requestDetail width hs hv => exact absurd (hn'.symm.trans hs) (by simp)

theorem Steady.apply {event : ReadEvent} {outcome : ApplyOutcome}
    (hr : ∀ snapshot, event.result = .ok (.overview snapshot) → snapshot.Ranged)
    (ha : core.apply event = some (core', outcome)) : core'.Steady := by
  have hheld : ∀ brush, core'.brush = some brush → brush.Held := by
    intro brush hb
    obtain hb | ⟨snapshot, range, hs, hrange, hb⟩ := apply_brush ha hb
    · exact h.held brush hb
    · obtain ⟨h0, ht⟩ := hr snapshot hs range hrange
      exact brushOver_held h0 ht hb
  have hreceived : (core.received event).Steady := h.keeps (keeps_dropped core event.kind) h.held
  rcases apply_cases core ha with ⟨rfl, -⟩ | ⟨-, he, hcase⟩
  · exact h
  rcases hcase with ⟨error, -, rfl⟩ | ⟨s, -, -, rfl⟩ | ⟨s, -, -, ho⟩ | ⟨s, -, hk, rfl⟩
  · exact hreceived.keeps ⟨rfl, rfl, fun _ => Or.inl rfl, Or.inl rfl, Or.inl rfl⟩ hheld
  · exact hreceived.effect (applyCatalog_effect _ s) hheld
  · have hstored : ({ core.received event with overview := some s } : ViewerCore).Steady :=
      ⟨hreceived.held, hreceived.selecting⟩
    exact hstored.keeps (applyOverview_effect _ ho).2 hheld
  · refine ⟨hheld, fun hn => ?_⟩
    -- a detail is expected only while there is a selection
    have hn' : core.curveSelection = none := hn
    have := (h.selecting hn').2.1
    rw [hk, this] at he
    cases he

end

end ViewerCore

namespace ViewerApp

/-! ## What every move keeps -/

structure Ready {Path : Type} (sourceText : StorageError → String) (queryText : QueryError → String)
    (accepts : Int → Bool) (app : ViewerApp Path) : Prop where
  drives : app.Drives (ReadsStore sourceText queryText accepts)
  steady : app.core.Steady
  ranged : ∀ event ∈ app.reader.events, ∀ snapshot, event.result = .ok (.overview snapshot) → snapshot.Ranged
  absent : app.worker = .absent → app.core.detail = none ∧ ∀ kind, app.core.expected kind = none

section
variable {Path : Type} {platform : Platform Path} {sourceText : StorageError → String}
    {queryText : QueryError → String}
  {accepts : Int → Bool} {app app' : ViewerApp Path}

theorem ready_init : ({} : ViewerApp Path).Ready sourceText queryText accepts :=
  ⟨drives_init, ViewerCore.steady_init, by simp, fun _ => ⟨rfl, fun _ => rfl⟩⟩

theorem effect_absent {core core' : ViewerCore} (he : Keeps core core' ∨ Clears core core')
    (h : core.detail = none ∧ ∀ kind, core.expected kind = none) : core'.detail = none ∧
      ∀ kind, core'.expected kind = none := by
  have hnarrows := effect_narrows he
  refine ⟨?_, fun kind => ?_⟩
  · rcases he with he | he
    · rcases he.detail with e | e
      · exact e.trans h.1
      · exact e
    · exact he.detail
  · rcases hnarrows kind with e | e
    · exact e.trans (h.2 kind)
    · exact e

/-- An event of a store's session has the viewport and the range of its query. -/
theorem execute_ranged {session : Except String ReadSession}
    (hs : ReadsStore sourceText queryText accepts (.execute session)) {t : TaggedRequest} :
    (∀ snapshot, (execute session t).result = .ok (.overview snapshot) → snapshot.Ranged) ∧
      ∀ snapshot, (execute session t).result = .ok (.detail snapshot) →
        ∃ request, t.request = .detail request ∧ snapshot.viewport = request.viewport := by
  cases session with
  | error error => exact ⟨fun _ h => (by cases h), fun _ h => (by cases h)⟩
  | ok s =>
    obtain ⟨source, hn, rfl⟩ := hs s rfl
    obtain ⟨generation, request⟩ := t
    constructor
    · intro snapshot h
      have hk := execute_kind h
      cases request with
      | overview request =>
        obtain ⟨store, -, hq⟩ := answers_overview ⟨source, hn, h⟩
        exact (queryCurves_queried hq).ranged
      | _ => cases hk
    · intro snapshot h
      have hk := execute_kind h
      cases request with
      | detail request =>
        obtain ⟨store, -, hq⟩ := answers_detail ⟨source, hn, h⟩
        exact ⟨request, rfl, (queryCurves_queried hq).requested⟩
      | _ => cases hk

theorem move_ready (hm : Move platform (ReadsStore sourceText queryText accepts) app app')
    (h : app.nextGeneration < u64Max → app.Ready sourceText queryText accepts)
    (hlt : app'.nextGeneration < u64Max) :
    app'.Ready sourceText queryText accepts := by
  have happ := h (move_unsaturated hm hlt)
  have hdrives := move_drives hm (fun hl => (h hl).drives) hlt
  cases hm with
  | close path worker localError =>
    exact ⟨hdrives, ViewerCore.steady_init, by simp [closed], fun _ => ⟨rfl, fun _ => rfl⟩⟩
  | user op hop =>
    exact ⟨hdrives, happ.steady.change op hop, happ.ranged, fun hw =>
      effect_absent (change_effect _ op) (happ.absent hw)⟩
  | gesture hb hg =>
    refine ⟨hdrives, happ.steady.moveBrush ((happ.steady.held _ hb).gesture hg), happ.ranged, fun hw => ?_⟩
    exact effect_absent (change_effect _ (.moveBrush _)) (happ.absent hw)
  | request hb =>
    unfold submit at hdrives ⊢
    cases hw : app.worker with
    | absent => simpa [hw] using happ
    | running =>
      simp only [hw] at hdrives ⊢
      exact ⟨hdrives, happ.steady.begin hb _, happ.ranged, fun h => by simp at h⟩
    | stopped =>
      simp only [hw] at hdrives ⊢
      exact ⟨hdrives, happ.steady, happ.ranged, fun h => by simp at h⟩
  | @receive event events core outcome he ha =>
    refine ⟨hdrives, happ.steady.apply (happ.ranged event (he ▸ List.mem_cons_self)) ha,
      fun e hin => happ.ranged e (he ▸ List.mem_cons_of_mem _ hin), fun hw => ?_⟩
    obtain ⟨hd, hexp⟩ := happ.absent hw
    rcases apply_cases app.core ha with ⟨e, -⟩ | ⟨-, hg, -⟩
    · exact ⟨(congrArg ViewerCore.detail e).trans hd, fun kind =>
        (congrArg (fun c => c.expected kind) e).trans (hexp kind)⟩
    · rw [hexp] at hg
      cases hg
  | @work op reader hop hw hr =>
    obtain ⟨hcore, -, hevents⟩ := work_effect hr
    have hsteady : reader.core.Steady := hcore.symm ▸ happ.steady
    refine ⟨hdrives, hsteady, fun event he snapshot hs => ?_, fun h => by simp [hw] at h⟩
    rcases hevents event he with he | ⟨session, t, rfl, -, rfl⟩
    · exact happ.ranged event he snapshot hs
    · exact (execute_ranged hop).1 snapshot hs
  | stop hw => exact ⟨hdrives, happ.steady, happ.ranged, fun h => by simp at h⟩
  | paint layout => exact ⟨hdrives, happ.steady, happ.ranged, happ.absent⟩
  | beside hb =>
    rw [hb] at hdrives ⊢
    exact ⟨hdrives, happ.steady, happ.ranged, happ.absent⟩

end

/-! ## What a step keeps -/

section
variable {Path : Type} (app : ViewerApp Path)

/-- What is selected lies within a viewport. -/
def Covers (viewport : AlignmentViewport) : Prop :=
  ∀ brush, app.core.brush = some brush →
    (ofInt viewport.start).le brush.selected.start = true ∧ brush.selected.stop.le (ofInt viewport.stop) = true

/-- A gesture is under way, or the worker is gone and an error says so. -/
def Excused : Prop :=
  app.drag.isSome = true ∨ app.zoomTask = true ∨ (app.worker = .stopped ∧ app.localError.isSome = true)

/-- A detail that is expected will cover what is selected. -/
structure Coming : Prop where
  asked : ∀ generation, app.core.expected .detail = some generation →
    ∀ t ∈ app.reader.channel ++ app.reader.worker.requests,
    t.generation = generation → ∀ request, t.request = .detail request → app.Covers request.viewport ∨ app.Excused
  arrived : ∀ generation, app.core.expected .detail = some generation → ∀ event ∈ app.reader.events,
    event.generation = generation → ∀ snapshot, event.result = .ok (.detail snapshot) →
      app.Covers snapshot.viewport ∨ app.Excused

/-- The detail that is shown covers what is selected, unless a gesture, a request or an error stands in between. -/
def Showing : Prop :=
  ∀ snapshot, app.core.detail = some snapshot → app.Covers snapshot.viewport ∨ app.Excused ∨
    (∃ kind, app.core.isPending kind = true) ∨ app.core.lastError.isSome = true

structure Settling : Prop where
  coming : app.Coming
  showing : app.Showing

end

section
variable {Path : Type} {app app' : ViewerApp Path}

theorem settling_of_excused (h : app.Excused) : app.Settling :=
  ⟨⟨fun _ _ _ _ _ _ _ => Or.inr h, fun _ _ _ _ _ _ _ => Or.inr h⟩, fun _ _ => Or.inr (Or.inl h)⟩

theorem coming_of_unexpected (h : app.core.expected .detail = none) : app.Coming := by
  constructor
  · intro generation he
    rw [h] at he
    cases he
  · intro generation he
    rw [h] at he
    cases he

theorem settling_of_none (hd : app.core.detail = none) (he : app.core.expected .detail = none) : app.Settling := by
  refine ⟨coming_of_unexpected he, fun snapshot hs => ?_⟩
  rw [hd] at hs
  cases hs

/-- Fewer requests and events leave what is expected as it was. -/
theorem Coming.narrow (h : app.Coming) (hb : app'.core.brush = app.core.brush)
    (hexpected : ∀ generation, app'.core.expected .detail = some generation →
      app.core.expected .detail = some generation)
    (hrequests : ∀ t ∈ app'.reader.channel ++ app'.reader.worker.requests,
      t ∈ app.reader.channel ++ app.reader.worker.requests)
    (hevents : ∀ event ∈ app'.reader.events, event ∈ app.reader.events) (he : app.Excused → app'.Excused) :
      app'.Coming := by
  have hcovers : ∀ viewport, app.Covers viewport ∨ app.Excused → app'.Covers viewport ∨ app'.Excused := by
    intro viewport hv
    rcases hv with hv | hv
    · exact Or.inl fun brush hbrush => hv brush (hb ▸ hbrush)
    · exact Or.inr (he hv)
  refine ⟨fun generation hg t ht htg request hr => ?_, fun generation hg event hev heg snapshot hs => ?_⟩
  · exact hcovers _ (h.asked generation (hexpected generation hg) t (hrequests t ht) htg request hr)
  · exact hcovers _ (h.arrived generation (hexpected generation hg) event (hevents event hev) heg snapshot hs)

theorem Coming.congr (h : app.Coming) (hreader : app'.reader = app.reader) (he : app.Excused → app'.Excused) :
    app'.Coming := by
  have hcore : app'.core = app.core := by rw [core, core, hreader]
  exact h.narrow (by rw [hcore]) (by simp [hcore]) (by simp [hreader]) (by simp [hreader]) he

theorem Settling.congr (h : app.Settling) (hreader : app'.reader = app.reader) (he : app.Excused → app'.Excused) :
    app'.Settling := by
  have hcore : app'.core = app.core := by rw [core, core, hreader]
  refine ⟨h.coming.congr hreader he, fun snapshot hs => ?_⟩
  rcases h.showing snapshot (hcore ▸ hs) with hv | hv | hv | hv
  · exact Or.inl fun brush hb => hv brush (hcore ▸ hb)
  · exact Or.inr (Or.inl (he hv))
  · exact Or.inr (Or.inr (Or.inl (hcore ▸ hv)))
  · exact Or.inr (Or.inr (Or.inr (hcore ▸ hv)))

/-! ## Requests settle -/

variable {sourceText : StorageError → String} {queryText : QueryError → String} {accepts : Int → Bool}

theorem Ready.settling_absent (h : app.Ready sourceText queryText accepts) (hw : app.worker = .absent) :
    app.Settling :=
  settling_of_none (h.absent hw).1 ((h.absent hw).2 .detail)

theorem submit_stopped (request : ReadRequest) (hw : app.worker = .stopped) : (app.submit request).Excused := by
  simp [submit, hw, Excused]

/-- A request of another kind shows that something is on its way. -/
theorem Ready.settling_submit (h : app.Ready sourceText queryText accepts) (hc : app.Coming) {request : ReadRequest}
    (hk : request.kind ≠ .detail) : (app.submit request).Settling := by
  cases hw : app.worker with
  | absent =>
    have happ : app.submit request = app := by simp [submit, hw]
    rw [happ]
    exact h.settling_absent hw
  | stopped => exact settling_of_excused (submit_stopped request hw)
  | running =>
    have happ : app.submit request = { app with
        nextGeneration := min (app.nextGeneration + 1) u64Max
        reader := app.reader.submit app.nextGeneration request } := by simp [submit, hw]
    rw [happ]
    have hexpected : ∀ generation, (app.core.begin app.nextGeneration request).expected .detail = some generation →
        app.core.expected .detail = some generation := by
      intro generation hg
      simpa [ViewerCore.begin, Ne.symm hk] using hg
    refine ⟨⟨fun generation hg t ht htg r hr => ?_, fun generation hg event hev heg snapshot hs => ?_⟩,
      fun snapshot hs => ?_⟩
    · simp only [Reader.submit, List.append_assoc, List.mem_append, List.mem_singleton] at ht
      have hold := hc.asked generation (hexpected generation hg) t
      rcases ht with ht | rfl | ht
      · exact hold (List.mem_append_left _ ht) htg r hr
      · exact absurd (congrArg ReadRequest.kind hr) hk
      · exact hold (List.mem_append_right _ ht) htg r hr
    · exact hc.arrived generation (hexpected generation hg) event hev heg snapshot hs
    · exact Or.inr
        (Or.inr (Or.inl ⟨request.kind, by simp [core, Reader.submit, ViewerCore.begin, ViewerCore.isPending]⟩))

theorem Ready.settling_refreshCatalog (h : app.Ready sourceText queryText accepts) (hc : app.Coming) :
    app.refreshCatalog.Settling := h.settling_submit hc (by simp [ReadRequest.kind])

theorem Ready.settling_requestOverview (h : app.Ready sourceText queryText accepts) (hc : app.Coming) :
    app.requestOverview.Settling := by
  unfold requestOverview
  cases hs : app.core.curveSelection with
  | none =>
    obtain ⟨hd, he, -⟩ := h.steady.selecting hs
    exact settling_of_none hd he
  | some selection => exact h.settling_submit hc (by simp [ReadRequest.kind])

/-- The detail that is asked for covers what is selected. -/
theorem Ready.settling_requestDetail (h : app.Ready sourceText queryText accepts) : app.requestDetail.Settling := by
  unfold requestDetail
  cases hs : app.core.curveSelection with
  | none =>
    obtain ⟨hd, he, -⟩ := h.steady.selecting hs
    exact settling_of_none hd he
  | some selection =>
    cases hb : app.core.brush with
    | none =>
      have hcovers : ∀ viewport, app.Covers viewport := fun viewport brush hbrush => by
        rw [hb] at hbrush; cases hbrush
      have hv : app.core.selectedViewport = none := by simp [ViewerCore.selectedViewport, hb]
      simp only [hv]
      exact ⟨⟨fun _ _ _ _ _ _ _ => Or.inl (hcovers _), fun _ _ _ _ _ _ _ => Or.inl (hcovers _)⟩,
        fun _ _ => Or.inl (hcovers _)⟩
    | some brush =>
      obtain ⟨viewport, hnew, hstart, hstop⟩ := (h.steady.held brush hb).covered
      have hv : app.core.selectedViewport = some viewport := by
        simp [ViewerCore.selectedViewport, hb, hnew, Except.toOption]
      simp only [hv]
      have hcovers : ∀ brush', app.core.brush = some brush' →
          (ofInt viewport.start).le brush'.selected.start = true ∧
            brush'.selected.stop.le (ofInt viewport.stop) = true := by
        intro brush' hbrush
        rw [hb] at hbrush
        cases hbrush
        exact ⟨hstart, hstop⟩
      cases hw : app.worker with
      | absent =>
        simp only [submit, hw]
        exact h.settling_absent hw
      | stopped => exact settling_of_excused (submit_stopped _ hw)
      | running =>
        simp only [submit, hw]
        obtain ⟨hrequests, hevents⟩ := h.drives.onTheWay
        have hgeneration : ∀ generation,
            (app.core.begin app.nextGeneration (.detail ⟨selection, viewport, app.detailWidth⟩)).expected
              .detail = some generation →
              generation = app.nextGeneration := by
          intro generation hg
          simpa [ViewerCore.begin, ReadRequest.kind] using hg.symm
        refine ⟨⟨fun generation hg t ht htg request hr => ?_,
          fun generation hg event hev heg snapshot _ => ?_⟩, fun _ _ => ?_⟩
        · simp only [Reader.submit, List.append_assoc, List.mem_append, List.mem_singleton] at ht
          have hold : t ∉ app.reader.channel ++ app.reader.worker.requests := fun hin =>
            Nat.ne_of_lt (hrequests t hin) (htg.trans (hgeneration generation hg))
          rcases ht with ht | rfl | ht
          · exact absurd (List.mem_append_left _ ht) hold
          · cases hr
            exact Or.inl hcovers
          · exact absurd (List.mem_append_right _ ht) hold
        · exact absurd (heg.trans (hgeneration generation hg)) (Nat.ne_of_lt (hevents event hev))
        · refine Or.inr (Or.inr (Or.inl ⟨.detail, ?_⟩))
          simp [core, Reader.submit, ViewerCore.begin, ViewerCore.isPending, ReadRequest.kind]

/-! ## Steps settle -/

theorem change_cases (core : ViewerCore) (op : UserOp) (hm : ∀ brush, op ≠ .moveBrush brush)
    (hv : op ≠ .resetView) :
    core.change op = core ∨ Clears core (core.change op) := by
  cases op with
  | selectProject projectId =>
    simp only [ViewerCore.change, ViewerCore.selectProject]
    split
    · exact Or.inl rfl
    · exact Or.inr (clears_clearCurves core rfl)
  | toggleRun runId =>
    simp only [ViewerCore.change, ViewerCore.toggleRun]
    split_ifs
    · exact Or.inr (clears_clearCurves core rfl)
    · exact Or.inl rfl
    · exact Or.inr (clears_clearCurves core rfl)
  | selectMetric metricKey =>
    simp only [ViewerCore.change, ViewerCore.selectMetric]
    split
    · exact Or.inl rfl
    · exact Or.inr (clears_clearCurves core rfl)
  | selectAxis axis =>
    simp only [ViewerCore.change, ViewerCore.selectAxis]
    split
    · exact Or.inl rfl
    · exact Or.inr (clears_clearCurves core rfl)
  | resetSource => exact Or.inr ⟨Or.inr rfl, rfl, rfl, rfl, rfl⟩
  | resetView => exact absurd rfl hv
  | moveBrush brush => exact absurd rfl (hm brush)

/-- A change of the selection leaves no detail expected that was not. -/
theorem Coming.change (h : app.Coming) {op : UserOp} (hm : ∀ brush, op ≠ .moveBrush brush) (hv : op ≠ .resetView) :
    (app.setCore (app.core.change op)).Coming := by
  rcases change_cases app.core op hm hv with he | hc
  · rw [he]
    exact h.congr rfl id
  · exact coming_of_unexpected hc.expectedDetail

/-- A new error, where the worker is gone. -/
theorem Excused.local_error (h : app.Excused) (error : String) :
    ({ app with localError := some error } : ViewerApp Path).Excused := by
  rcases h with h | h | ⟨hw, -⟩
  · exact Or.inl h
  · exact Or.inr (Or.inl h)
  · exact Or.inr (Or.inr ⟨hw, rfl⟩)

/-- Without a worker's error the catalog is asked for, and the error comes back if the worker is gone. -/
theorem Ready.settling_refreshed (h : app.Ready sourceText queryText accepts) (hc : app.Coming) :
    ({ app with localError := none } : ViewerApp Path).refreshCatalog.Settling := by
  by_cases hw : app.worker = .stopped
  · exact settling_of_excused (submit_stopped _ hw)
  · have hready : ({ app with localError := none } : ViewerApp Path).Ready sourceText queryText accepts :=
      ⟨⟨h.drives.run, h.drives.behind⟩, h.steady, h.ranged, h.absent⟩
    refine hready.settling_refreshCatalog (hc.congr rfl fun he => ?_)
    rcases he with he | he | ⟨he, -⟩
    · exact Or.inl he
    · exact Or.inr (Or.inl he)
    · exact absurd he hw

end

/-- A drag begins only when none is under way. -/
def DragsOnce {Path : Type} (app : ViewerApp Path) : AppOp → Prop
  | .beginBrushDrag _ => app.drag = none
  | .beginDetailDrag _ => app.drag = none
  | _ => True

instance {Path : Type} (app : ViewerApp Path) (op : AppOp) : Decidable (app.DragsOnce op) := by
  cases op <;> first | exact instDecidableTrue | exact inferInstanceAs (Decidable (app.drag = none))

section
variable {Path : Type} {platform : Platform Path} {app app' : ViewerApp Path} {sourceText : StorageError → String}
  {queryText : QueryError → String} {accepts : Int → Bool}
  (h : app.Ready sourceText queryText accepts)
include h

/-- After a catalog the overview is asked for, unless nothing is selected. -/
theorem catalog_settles (hc : app.Coming) (generation : Generation) :
    (app.afterSnapshot platform .catalog generation).Settling := by
  have hlist : (app.rebuildRunList platform).Ready sourceText queryText accepts :=
    ⟨⟨h.drives.run, h.drives.behind⟩, h.steady, h.ranged, h.absent⟩
  simp only [afterSnapshot]
  split
  · exact hlist.settling_requestOverview (hc.congr rfl id)
  · rename_i hnone
    obtain ⟨hd, he, -⟩ := hlist.steady.selecting (Option.not_isSome_iff_eq_none.mp hnone)
    exact settling_of_none hd he

variable (hs : app.Settling) (hn : app.nextGeneration < u64Max)
include hs hn

theorem event_settles (he : app.applyEvent platform = some app') : app'.Settling := by
  obtain ⟨event, events, core, outcome, hev, ha, rfl⟩ := applyEvent_cases he
  have hhead : event ∈ app.reader.events := hev ▸ List.mem_cons_self
  have hr : (app.received event events core outcome).Ready sourceText queryText accepts :=
    move_ready (Move.receive app hev ha : Move platform _ _ _) (fun _ => h) hn
  -- the core that has received an event expects no more than before
  have hcoming : core.brush = app.core.brush →
      (∀ generation, core.expected .detail = some generation → app.core.expected .detail = some generation) →
        (app.received event events core outcome).Coming := fun hb hexp =>
    hs.coming.narrow hb hexp (fun _ ht => ht) (fun e hin => hev ▸ List.mem_cons_of_mem _ hin) id
  rcases apply_cases app.core ha with ⟨rfl, hout⟩ | ⟨rfl, hexp, hcase⟩
  · rw [if_neg fun hc => hout hc.1]
    refine ⟨hcoming rfl fun _ hg => hg, fun snapshot hd => ?_⟩
    exact hs.showing snapshot hd
  have hreceived : ∀ generation, (app.core.received event).expected .detail = some generation →
      app.core.expected .detail = some generation :=
        fun _ => Narrows.expected (keeps_dropped app.core event.kind).expected
  rcases hcase with ⟨error, hresult, rfl⟩ | ⟨s, hresult, hk, rfl⟩ | ⟨s, hresult, hk, ho⟩ | ⟨s, hresult, hk, rfl⟩
  · rw [if_neg fun hc => by simp [hresult, Except.isOk, Except.toBool] at hc]
    exact ⟨hcoming rfl hreceived, fun _ _ => Or.inr (Or.inr (Or.inr rfl))⟩
  · rw [if_pos ⟨rfl, by simp [hresult, Except.isOk, Except.toBool]⟩, hk]
    have hbrush : ((app.core.received event).applyCatalog s).brush = app.core.brush := by
      unfold ViewerCore.applyCatalog
      dsimp only
      split <;> rfl
    have hnarrows := effect_narrows (applyCatalog_effect (app.core.received event) s)
    have hc := hcoming hbrush fun g hg => hreceived g (hnarrows.expected hg)
    have hread : ({ app with
        reader := (app.received event events ((app.core.received event).applyCatalog s) .applied).reader } :
          ViewerApp Path).Ready sourceText queryText accepts :=
      ⟨⟨hr.drives.run, hr.drives.behind⟩, hr.steady, hr.ranged, hr.absent⟩
    exact catalog_settles hread (hc.congr rfl id) _
  · rw [if_pos ⟨rfl, by simp [hresult, Except.isOk, Except.toBool]⟩, hk]
    simp only [afterSnapshot]
    exact Ready.settling_requestDetail ⟨⟨hr.drives.run, hr.drives.behind⟩, hr.steady, hr.ranged, hr.absent⟩
  · rw [if_pos ⟨rfl, by simp [hresult, Except.isOk, Except.toBool]⟩, hk]
    simp only [afterSnapshot]
    rw [hk] at hexp
    refine ⟨coming_of_unexpected (by simp [received, ViewerApp.core, ViewerCore.received, hk]),
      fun snapshot hd => ?_⟩
    cases hd
    rcases hs.coming.arrived event.generation hexp event hhead rfl s hresult with hv | hv
    · exact Or.inl hv
    · exact Or.inr (Or.inl hv)

omit h hn in
/-- The event of a request has the viewport that the request had. -/
theorem work_settles {op : WorkerOp} (hop : ReadsStore sourceText queryText accepts op) {reader : Reader}
    (hr : app.reader.step op.toReader = some reader) :
      ({ app with reader := reader } : ViewerApp Path).Settling := by
  obtain ⟨hcore, hrequests, hevents⟩ := work_effect hr
  have hcovers : ∀ viewport, app.Covers viewport ∨ app.Excused →
      Covers { app with reader := reader } viewport ∨ Excused { app with reader := reader } := by
    intro viewport hv
    rcases hv with hv | hv
    · refine Or.inl fun brush hb => hv brush ?_
      rw [← hb]
      exact congrArg ViewerCore.brush hcore.symm
    · exact Or.inr hv
  have hexpected : ∀ {kind generation}, reader.core.expected kind = some generation →
    app.core.expected kind = some generation :=
    fun hg => by rw [← hg, hcore]; rfl
  refine ⟨⟨fun generation hg t ht htg request hrequest =>
    ?_, fun generation hg event hev heg snapshot hresult => ?_⟩,
    fun snapshot hd => ?_⟩
  · exact hcovers _ (hs.coming.asked generation (hexpected hg) t (hrequests t ht) htg request hrequest)
  · rcases hevents event hev with hev | ⟨session, t, rfl, ht, rfl⟩
    · exact hcovers _ (hs.coming.arrived generation (hexpected hg) event hev heg snapshot hresult)
    · obtain ⟨request, hrequest, hviewport⟩ := (execute_ranged hop).2 snapshot hresult
      rw [hviewport]
      exact hcovers _
        (hs.coming.asked generation (hexpected hg) t (List.mem_append_right _ ht) heg request hrequest)
  · have hd' : app.core.detail = some snapshot := by rw [← hd]; exact congrArg ViewerCore.detail hcore.symm
    rcases hs.showing snapshot hd' with hv | hv | ⟨kind, hv⟩ | hv
    · rcases hcovers _ (Or.inl hv) with hv | hv
      · exact Or.inl hv
      · exact Or.inr (Or.inl hv)
    · exact Or.inr (Or.inl hv)
    · refine Or.inr (Or.inr (Or.inl ⟨kind, ?_⟩))
      rw [← hv]
      exact congrArg (fun c => c.isPending kind) hcore
    · refine Or.inr (Or.inr (Or.inr ?_))
      rw [← hv]
      exact congrArg (fun c => c.lastError.isSome) hcore

omit hn in
theorem draw_settles (layout : Layout) (hlt : (app.draw platform layout).2.nextGeneration < u64Max) :
    (app.draw platform layout).2.Settling := by
  let resized := app.resized layout.scaleFactor
  have hresized : resized.Ready sourceText queryText accepts :=
    ⟨⟨h.drives.run, h.drives.behind⟩, h.steady, h.ranged, h.absent⟩
  have hsettling : resized.Settling := hs.congr rfl id
  let overviewChanged := (app.adapter.physicalWidths layout.scaleFactor).1.any fun width =>
    width != app.overviewWidth
  let detailChanged := (app.adapter.physicalWidths layout.scaleFactor).2.any fun width => width != app.detailWidth
  let asked := if overviewChanged then resized.requestOverview else resized
  have hmoves : Moves platform (ReadsStore sourceText queryText accepts) resized asked :=
    moves_ite _ moves_requestOverview
  have hlater : Moves platform (ReadsStore sourceText queryText accepts) asked
    (if detailChanged then asked.requestDetail else asked) :=
    moves_ite _ moves_requestDetail
  have hlt' : asked.nextGeneration < u64Max := moves_unsaturated hlater hlt
  have hasked : asked.Ready sourceText queryText accepts :=
    Moves.inv (fun _ _ => move_ready) hmoves (fun _ => hresized) hlt'
  have hasked' : asked.Settling := by
    by_cases hc : overviewChanged
    · simp only [asked, hc, ite_true]
      exact hresized.settling_requestOverview hsettling.coming
    · simp only [asked, hc, Bool.false_eq_true, ite_false]
      exact hsettling
  have hfinal : (if detailChanged then asked.requestDetail else asked).Settling := by
    by_cases hc : detailChanged
    · rw [if_pos hc]; exact hasked.settling_requestDetail
    · rw [if_neg hc]; exact hasked'
  exact hfinal.congr rfl id

theorem step_settles {op : AppOp} (hop : Works (ReadsStore sourceText queryText accepts) op)
    (hdrags : app.DragsOnce op)
    (hstep : app.step platform op = some app') (hlt : app'.nextGeneration < u64Max) : app'.Settling := by
  have hmove : ∀ {app' : ViewerApp Path}, Move platform (ReadsStore sourceText queryText accepts) app app' →
      app'.nextGeneration = app.nextGeneration → app'.Ready sourceText queryText accepts := fun hm he =>
    move_ready hm (fun _ => h) (he ▸ hn)
  have hbeside : ∀ {app' : ViewerApp Path}, app.Beside app' → app'.Ready sourceText queryText accepts := fun hb =>
    hmove (Move.beside hb) (by rw [hb])
  have hselect : ∀ (op : UserOp), (∀ brush, op ≠ .moveBrush brush) → op ≠ .resetView →
      (app.setCore (app.core.change op)).Ready sourceText queryText accepts ∧
        (app.setCore (app.core.change op)).Coming :=
    fun op hm hv => ⟨hmove (Move.user app op hm) rfl, hs.coming.change hm hv⟩
  cases op with
  | openSource path spawned =>
    cases hstep
    cases spawned with
    | ok _ =>
      have hr : (app.closed path .running none).Ready sourceText queryText accepts :=
        hmove (Move.close app path .running none) rfl
      exact hr.settling_refreshCatalog (coming_of_unexpected rfl)
    | error error => exact settling_of_none rfl rfl
  | pickerFailed error => cases hstep; exact hs.congr rfl fun he => he.local_error error
  | refresh => cases hstep; exact h.settling_refreshed hs.coming
  | reset =>
    cases hstep
    simp only [onReset]
    split
    · have hr : (app.setCore (app.core.change .resetView)).Ready sourceText queryText accepts :=
        hmove (Move.user app .resetView (by simp)) rfl
      exact hr.settling_requestDetail
    · exact hs
  | selectAxis axis =>
    cases hstep
    obtain ⟨hr, hc⟩ := hselect (.selectAxis axis) (by simp) (by simp)
    exact hr.settling_requestOverview hc
  | selectMetric metricKey =>
    cases hstep
    obtain ⟨hr, hc⟩ := hselect (.selectMetric (some metricKey)) (by simp) (by simp)
    exact hr.settling_requestOverview hc
  | selectProject projectId =>
    cases hstep
    obtain ⟨hr, hc⟩ := hselect (.selectProject (some projectId)) (by simp) (by simp)
    have hlist : (rebuildRunList platform { app.setCore (app.core.selectProject (some projectId)) with
        runFilter := "" }).Ready sourceText queryText accepts :=
          ⟨⟨hr.drives.run, hr.drives.behind⟩, hr.steady, hr.ranged, hr.absent⟩
    exact hlist.settling_refreshCatalog (hc.congr rfl id)
  | toggleRun runId =>
    cases hstep
    simp only [toggleRun]
    split
    · obtain ⟨hr, hc⟩ := hselect (.toggleRun runId) (by simp) (by simp)
      exact hr.settling_refreshed hc
    · exact hs.congr rfl fun he => he.local_error _
  | filterKey event =>
    cases hstep
    simp only [onFilterKey]
    split
    · exact hs
    · exact hs.congr rfl id
  | beginBrushDrag cursor =>
    cases hstep
    simp only [beginBrushDrag]
    split
    · exact hs
    · refine hs.congr rfl fun he => ?_
      rcases he with he | he
      · rw [show app.drag = none from hdrags] at he
        cases he
      · exact Or.inr he
  | beginDetailDrag cursor =>
    cases hstep
    simp only [beginDetailDrag]
    split
    · exact hs
    · refine hs.congr rfl fun he => ?_
      rcases he with he | he
      · rw [show app.drag = none from hdrags] at he
        cases he
      · exact Or.inr he
  | moveBrushDrag cursor =>
    simp only [step, moveBrushDrag] at hstep
    split at hstep
    · cases hstep; exact hs
    · split at hstep
      · cases hstep; exact hs
      · split at hstep
        · cases hstep; exact hs
        · obtain ⟨moved, -, rfl⟩ := Option.map_eq_some_iff.mp hstep
          exact settling_of_excused (Or.inl rfl)
  | moveDetailDrag cursor =>
    simp only [step, moveDetailDrag] at hstep
    split at hstep
    · split at hstep
      · cases hstep; exact hs
      · split at hstep
        · cases hstep; exact hs
        · obtain ⟨moved, -, rfl⟩ := Option.map_eq_some_iff.mp hstep
          exact settling_of_excused (Or.inl rfl)
    · cases hstep; exact hs
  | finishDrag =>
    cases hstep
    simp only [finishDrag]
    split
    · have hr : ({ app with drag := none } : ViewerApp Path).Ready sourceText queryText accepts := hbeside rfl
      exact hr.settling_requestDetail
    · exact hs
  | zoomDetail cursor delta =>
    simp only [step, zoomDetail] at hstep
    split at hstep
    · cases hstep; exact hs
    · split at hstep
      · cases hstep; exact hs
      · obtain ⟨zoomed, -, rfl⟩ := Option.map_eq_some_iff.mp hstep
        split
        · exact settling_of_excused (Or.inr (Or.inl rfl))
        · exact hs
  | zoomTimer =>
    simp only [step, onZoomTimer] at hstep
    split at hstep
    · cases hstep
      have hr : ({ app with zoomTask := false } : ViewerApp Path).Ready sourceText queryText accepts := hbeside rfl
      exact hr.settling_requestDetail
    · cases hstep
  | hover cursor =>
    obtain ⟨shown, -, rfl⟩ := Option.map_eq_some_iff.mp hstep
    exact hs.congr rfl id
  | leave => cases hstep; exact hs.congr rfl id
  | draw layout => cases hstep; exact draw_settles h hs layout hlt
  | event => exact event_settles h hs hn hstep
  | work op =>
    simp only [step] at hstep
    split at hstep
    · obtain ⟨reader, hr, rfl⟩ := Option.map_eq_some_iff.mp hstep
      exact work_settles hs hop hr
    · cases hstep
  | workerStopped =>
    simp only [step] at hstep
    split at hstep
    · rename_i hw
      cases hstep
      refine hs.congr rfl fun he => ?_
      rcases he with he | he | ⟨he, -⟩
      · exact Or.inl he
      · exact Or.inr (Or.inl he)
      · rw [hw] at he
        cases he
    · cases hstep

end

/-! ## Runs -/

theorem detailViewport_covered {snapshot : CurveSnapshot} {selected : AxisRange F64} {viewport : Viewport F64}
    (hstart : (ofInt snapshot.viewport.start).le selected.start = true)
    (hstop : selected.stop.le (ofInt snapshot.viewport.stop) = true)
    (h : snapshot.detailViewport (some selected) = some viewport) : viewport.x = selected := by
  obtain ⟨x, hx, h⟩ := Option.bind_eq_some_iff.mp h
  obtain ⟨y, -, h⟩ := Option.bind_eq_some_iff.mp h
  have hnew : AxisRange.new (ofInt snapshot.viewport.start) (ofInt snapshot.viewport.stop) = .ok x := by
    cases hn : AxisRange.new (ofInt snapshot.viewport.start) (ofInt snapshot.viewport.stop) with
    | error e => simp [hn, Except.toOption] at hx
    | ok r => simpa [hn, Except.toOption] using hx
  obtain ⟨hxs, hxe⟩ := range_of_new hnew
  cases h
  simp [hxs, hxe, hstart, hstop, Option.filter]

section
variable {Path : Type} {platform : Platform Path} {app : ViewerApp Path} {sourceText : StorageError → String}
  {queryText : QueryError → String} {accepts : Int → Bool}

/-- In every run that has come to rest the detail chart covers what is
selected, shows just that and has no label over it. -/
theorem selection_covered_at_rest {ops : List AppOp}
    (hm : Meets (step platform)
      (fun app op => Works (ReadsStore sourceText queryText accepts) op ∧ app.DragsOnce op) {} ops)
    (h : exec (step platform) {} ops = some app) (hlt : app.nextGeneration < u64Max) (hquiet : app.reader.Quiet)
    (hdrag : app.drag = none) (hzoom : app.zoomTask = false) (herror : app.error = none) {snapshot : CurveSnapshot}
    (hdetail : app.core.detail = some snapshot) :
    app.updatingViewport snapshot = false ∧
      ∀ shown brush, app.shownDetail = some shown → app.core.brush = some brush → shown.2.x = brush.selected := by
  have hinv : app.Ready sourceText queryText accepts ∧ app.Settling := by
    refine @exec_inv _ _ (step platform) _
      (fun app => app.nextGeneration < u64Max → app.Ready sourceText queryText accepts ∧ app.Settling)
      (fun app op app' hop hs happ hlt => ?_) _ _ _ hm h (fun _ => ⟨ready_init, settling_of_none rfl rfl⟩) hlt
    have hmoves := step_moves hop.1 hs
    have hn := moves_unsaturated hmoves hlt
    obtain ⟨hready, hsettling⟩ := happ hn
    exact ⟨Moves.inv (fun _ _ => move_ready) hmoves (fun _ => hready) hlt,
      step_settles hready hsettling hn hop.1 hop.2 hs hlt⟩
  obtain ⟨hready, hsettling⟩ := hinv
  have hpending := not_pending_of_quiet hready.drives.carried.2 hquiet
  obtain ⟨hlocal, hlast⟩ : app.localError = none ∧ app.core.lastError = none := by simpa [error] using herror
  have hcovers : app.Covers snapshot.viewport := by
    rcases hsettling.showing snapshot hdetail with hv | hv | ⟨kind, hv⟩ | hv
    · exact hv
    · simp [Excused, hdrag, hzoom, hlocal] at hv
    · exact absurd (hpending kind) (by rw [ViewerApp.core] at hv; simp [hv])
    · simp [hlast] at hv
  constructor
  · have hnone : app.core.isPending .detail = false := hpending .detail
    cases hb : app.core.brush with
    | none => simp [updatingViewport, hnone, hb]
    | some brush =>
      obtain ⟨hstart, hstop⟩ := hcovers brush hb
      simp [updatingViewport, hnone, hb, CurveSnapshot.selectionCovered, hstart, hstop]
  · intro shown brush hshown hb
    obtain ⟨hstart, hstop⟩ := hcovers brush hb
    unfold shownDetail at hshown
    split at hshown
    · obtain ⟨s, hs, hshown⟩ := Option.bind_eq_some_iff.mp hshown
      obtain ⟨viewport, hv, hshown⟩ := Option.bind_eq_some_iff.mp hshown
      cases hdetail.symm.trans hs
      cases hshown
      rw [hb] at hv
      exact detailViewport_covered hstart hstop hv
    · cases hshown

/-! The start handle is dragged to the middle, and what is then selected is read. -/

def pixel (x : F32) : Position F32 := ⟨x, ⟨0⟩⟩

def draggedOps : List AppOp :=
  pairOps ++ [.draw squares, .beginBrushDrag (pixel ⟨0⟩), .moveBrushDrag (pixel ⟨0x42480000⟩), .finishDrag] ++
    readPair

theorem selection_covered_at_rest_pair : ∃ app snapshot shown brush,
    exec (step positions) {} draggedOps = some app ∧ app.core.detail = some snapshot ∧
      snapshot.viewport.start = 5 ∧ app.updatingViewport snapshot = false ∧ app.shownDetail = some shown ∧
      app.core.brush = some brush ∧ shown.2.x = brush.selected := by
  have hrun : (exec (step positions) {} draggedOps).any (fun app => decide (app.nextGeneration < u64Max ∧
      (app.reader.channel.isEmpty ∧ app.reader.worker.requests.isEmpty ∧ app.reader.events.isEmpty) ∧
        app.drag = none ∧ app.zoomTask = false ∧ app.error = none ∧
        (app.core.detail.any fun snapshot => snapshot.viewport.start == 5) ∧ app.shownDetail.isSome ∧
        app.core.brush.isSome)) = true := by decide +kernel
  obtain ⟨app, happ, h⟩ := (Option.any_eq_true _ _).mp hrun
  obtain ⟨hlt, ⟨hc, hw, he⟩, hdrag, hzoom, herror, hdetail, hshown, hbrush⟩ := of_decide_eq_true h
  obtain ⟨snapshot, hs, hstart⟩ := (Option.any_eq_true _ _).mp hdetail
  obtain ⟨shown, hshown⟩ := Option.isSome_iff_exists.mp hshown
  obtain ⟨brush, hb⟩ := Option.isSome_iff_exists.mp hbrush
  have hquiet : app.reader.Quiet :=
    ⟨List.isEmpty_iff.mp hc, List.isEmpty_iff.mp hw, List.isEmpty_iff.mp he⟩
  have hworks : ∀ op ∈ draggedOps, Works (ReadsStore (fun _ => "") (fun _ => "") nearEpoch) op := by
    simp only [draggedOps, List.forall_mem_append]
    exact ⟨⟨pairOps_works, by simp [Works]⟩, readPair_works⟩
  have honce : Meets (step positions) (fun app op => app.DragsOnce op) {} draggedOps := by decide +kernel
  have hm := (meets_and (step positions)).mpr ⟨meets_of_forall _ (fun _ op hop => hworks op hop) _, honce⟩
  obtain ⟨hlabel, hrange⟩ := selection_covered_at_rest hm happ hlt hquiet hdrag hzoom herror hs
  exact ⟨app, snapshot, shown, brush, happ, hs, beq_iff_eq.mp hstart, hlabel, hshown, hb,
    hrange shown brush hshown hb⟩

end

end ViewerApp

end Pulseon
