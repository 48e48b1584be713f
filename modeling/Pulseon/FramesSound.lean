import Pulseon.ChartingSound
import Pulseon.DesktopMoves
import Pulseon.SourceSound

/-!
# Frames do not depend on the caches

A revision is the generation of the event whose snapshot is shown. While the
counter has not saturated a generation is used once, so the entries that a
layer holds of the current revision were built from the snapshot that is shown,
and every frame is what painting it without any cache gives.
-/

namespace Pulseon

/-! ## Painting without a cache -/

section
variable {Path : Type} (platform : Platform Path)

def strokeOf (viewport : Viewport F64) (bounds : Bounds F32) (canvas : CanvasSize F64) (series : Series F64)
    (dashed : Bool) : Option Path :=
  (buildPath series viewport canvas).toOption.bind fun points =>
    platform.buildStroke dashed (points.map (placed bounds))

/-- The strokes of the drawable curves, each in the colour of its place. -/
def strokesFrom (viewport : Viewport F64) (bounds : Bounds F32) (canvas : CanvasSize F64) (index : Nat)
    (curves : List CurveSeriesSnapshot) : List (Path × UInt32) :=
  (curves.zipIdx index).filterMap fun c =>
    (c.1.chartSeries.bind fun series => strokeOf platform viewport bounds canvas series c.1.dashed).map
      fun path => (path, seriesColor c.2)

def CurveSnapshot.strokes (snapshot : CurveSnapshot) (viewport : Viewport F64) (bounds : Bounds F32) :
    List (Path × UInt32) :=
  match CanvasSize.new bounds.width.toF64 bounds.height.toF64 with
  | .error _ => []
  | .ok canvas => strokesFrom platform viewport bounds canvas 0 snapshot.series

/-! ## Layers -/

/-- No entry is newer than the revision, and the entries of the revision are
what the series of the snapshot give. -/
structure ChartLayer.Faithful (layer : ChartLayer Path) (revision : Generation) (shown : Option CurveSnapshot) :
    Prop where
  projected : ∀ id key points, layer.projectionCache.entries id = some (key, points) →
    key.revision.toNat ≤ revision ∧
    (key.revision.toNat = revision → ∀ snapshot, shown = some snapshot → ∀ series ∈ snapshot.drawn, series.id = id →
      ∀ viewport canvas, key = pathCacheKey key.revision viewport canvas →
        buildPath series viewport canvas = .ok points)
  built : ∀ name key path, layer.gpuiPaths name = some (key, path) → key.revision.toNat ≤ revision ∧
    (key.revision.toNat = revision → ∀ snapshot, shown = some snapshot → ∀ series ∈ snapshot.drawn,
      series.id.value = name → ∀ viewport bounds canvas dark,
        CanvasSize.new bounds.width.toF64 bounds.height.toF64 = .ok canvas →
        key = gpuiPathKey key.revision viewport bounds dark key.dashed →
          strokeOf platform viewport bounds canvas series key.dashed = some path)

end

section
variable {Path : Type} {platform : Platform Path} {layer : ChartLayer Path} {revision : Generation}

theorem faithful_empty (revision : Generation) (shown : Option CurveSnapshot) (bounds : Option (Bounds F32)) :
    ({ bounds := bounds } : ChartLayer Path).Faithful platform revision shown where
  projected _ _ _ h := by cases h
  built _ _ _ h := by cases h

/-- Where nothing of the revision is kept, any other snapshot may be shown. -/
theorem ChartLayer.Faithful.renew {shown : Option CurveSnapshot} (h : layer.Faithful platform revision shown)
    {later : Generation} (hlt : revision < later) (shown' : Option CurveSnapshot) : layer.Faithful platform
      later shown' where
  projected id key points he := by
    have hold := Nat.lt_of_le_of_lt (h.projected id key points he).1 hlt
    exact ⟨Nat.le_of_lt hold, fun hr => absurd hr (Nat.ne_of_lt hold)⟩
  built name key path he := by
    have hold := Nat.lt_of_le_of_lt (h.built name key path he).1 hlt
    exact ⟨Nat.le_of_lt hold, fun hr => absurd hr (Nat.ne_of_lt hold)⟩

theorem ChartLayer.Faithful.drop {shown shown' : Option CurveSnapshot} (h : layer.Faithful platform revision shown)
    (hs : shown' = shown ∨ shown' = none) : layer.Faithful platform revision shown' := by
  rcases hs with rfl | rfl
  · exact h
  · exact ⟨fun id key points he => ⟨(h.projected id key points he).1, fun _ _ hn => by cases hn⟩,
      fun name key path he => ⟨(h.built name key path he).1, fun _ _ hn => by cases hn⟩⟩

theorem gpuiPathKey_inj {revision revision' : UInt64} {viewport viewport' : Viewport F64}
    {bounds bounds' : Bounds F32} {dark dark' dashed dashed' : Bool}
    (h : gpuiPathKey revision viewport bounds dark dashed = gpuiPathKey revision' viewport' bounds' dark' dashed') :
    revision = revision' ∧ viewport = viewport' ∧ bounds = bounds' ∧ dashed = dashed' := by
  obtain ⟨x, y⟩ := viewport
  obtain ⟨x', y'⟩ := viewport'
  obtain ⟨⟨left⟩, ⟨top⟩, ⟨width⟩, ⟨height⟩⟩ := bounds
  obtain ⟨⟨left'⟩, ⟨top'⟩, ⟨width'⟩, ⟨height'⟩⟩ := bounds'
  simp only [gpuiPathKey, GpuiPathKey.mk.injEq, Prod.mk.injEq] at h
  obtain ⟨hrevision, ⟨⟨hx, hx'⟩, hy, hy'⟩, ⟨⟨rfl, rfl⟩, rfl, rfl⟩, -, hdashed⟩ := h
  rw [AxisRange.ext_bits hx hx', AxisRange.ext_bits hy hy']
  exact ⟨hrevision, rfl, rfl, hdashed⟩

variable {snapshot : CurveSnapshot} {frame : Frame} {series : Series F64}
    (hl : layer.Faithful platform revision (some snapshot))
  (hrevision : frame.revision.toNat = revision) (hkeyed : snapshot.Keyed) (hseries : series ∈ snapshot.drawn)
  (hcanvas : CanvasSize.new frame.bounds.width.toF64 frame.bounds.height.toF64 = .ok frame.canvas)
include hl hrevision hkeyed hseries

/-- The projection cache gives what projecting gives and stays faithful. -/
theorem ChartLayer.Faithful.project :
    (layer.projectionCache.pathFor series frame.revision frame.viewport frame.canvas).1 =
        buildPath series frame.viewport frame.canvas ∧
      ChartLayer.Faithful platform { layer with
        projectionCache := (layer.projectionCache.pathFor series frame.revision frame.viewport frame.canvas).2 }
        revision (some snapshot) := by
  rcases pathFor_cases layer.projectionCache series frame.revision frame.viewport frame.canvas with
    ⟨points, he, hp⟩ | ⟨points, hbuild, hp⟩ | ⟨e, hbuild, hp⟩
  · rw [hp]
    obtain ⟨-, hcurrent⟩ := hl.projected _ _ _ he
    exact ⟨(hcurrent hrevision snapshot rfl series hseries rfl _ _ rfl).symm, hl⟩
  · rw [hp, hbuild]
    refine ⟨rfl, fun id key points' he => ?_, hl.built⟩
    dsimp only at he
    by_cases hid : id = series.id
    · subst hid
      rw [Function.update_self] at he
      cases he
      refine ⟨le_of_eq hrevision, fun _ s hs other hother hid viewport canvas hkey => ?_⟩
      cases hs
      obtain ⟨-, rfl, rfl⟩ := pathCacheKey_inj hkey
      rw [hkeyed other hother series hseries (by rw [hid]), hbuild]
    · rw [Function.update_of_ne hid] at he
      exact hl.projected id key points' he
  · rw [hp, hbuild]
    exact ⟨rfl, hl⟩

include hcanvas

theorem ChartLayer.Faithful.pathOf (dashed : Bool) :
    (layer.pathOf platform frame series dashed).1 =
        strokeOf platform frame.viewport frame.bounds frame.canvas series dashed ∧
      (layer.pathOf platform frame series dashed).2.Faithful platform revision (some snapshot) := by
  unfold ChartLayer.pathOf
  dsimp only
  split
  · rename_i key path hentry
    obtain ⟨hsome, hkey⟩ := Option.filter_eq_some_iff.mp hentry
    obtain rfl : key = gpuiPathKey frame.revision frame.viewport frame.bounds frame.dark dashed :=
      of_decide_eq_true hkey
    obtain ⟨-, hcurrent⟩ := hl.built _ _ _ hsome
    exact ⟨(hcurrent hrevision snapshot rfl series hseries rfl _ _ _ _ hcanvas rfl).symm, hl⟩
  · obtain ⟨hproject, hkept⟩ := hl.project hrevision hkeyed hseries
    rw [hproject]
    cases hbuild : buildPath series frame.viewport frame.canvas with
    | error e => exact ⟨by simp [strokeOf, hbuild, Except.toOption], hkept⟩
    | ok points =>
      dsimp only
      have hstroke : strokeOf platform frame.viewport frame.bounds frame.canvas series dashed =
          platform.buildStroke dashed (points.map (placed frame.bounds)) := by
            simp [strokeOf, hbuild, Except.toOption]
      cases hpath : platform.buildStroke dashed (points.map (placed frame.bounds)) with
      | none => exact ⟨by rw [hstroke, hpath], hkept⟩
      | some path =>
        refine ⟨by rw [hstroke, hpath], hkept.projected, fun name key path' he => ?_⟩
        dsimp only at he
        by_cases hname : name = series.id.value
        · subst hname
          rw [Function.update_self] at he
          cases he
          refine ⟨le_of_eq hrevision, fun _ s hs other hother hid viewport bounds canvas dark hc hkey => ?_⟩
          cases hs
          obtain ⟨-, rfl, rfl, -⟩ := gpuiPathKey_inj hkey
          rw [hkeyed other hother series hseries hid]
          rw [hcanvas] at hc
          cases hc
          exact hstroke.trans hpath
        · rw [Function.update_of_ne hname] at he
          exact hl.built name key path' he

omit hseries in
/-- The loop paints what painting without a cache does. -/
theorem ChartLayer.Faithful.pathsFrom {curves : List CurveSeriesSnapshot} (index : Nat)
    (hcurves : ∀ curve ∈ curves, curve ∈ snapshot.series) :
    (layer.pathsFrom platform frame index curves).1 =
        strokesFrom platform frame.viewport frame.bounds frame.canvas index curves ∧
      (layer.pathsFrom platform frame index curves).2.Faithful platform revision (some snapshot) := by
  induction curves generalizing layer index with
  | nil => exact ⟨rfl, hl⟩
  | cons curve rest ih =>
    have hrest : ∀ c ∈ rest, c ∈ snapshot.series := fun c hc => hcurves c (List.mem_cons_of_mem _ hc)
    have hzip : strokesFrom platform frame.viewport frame.bounds frame.canvas index (curve :: rest) =
        ((curve.chartSeries.bind fun series =>
          strokeOf platform frame.viewport frame.bounds frame.canvas series curve.dashed).map
            fun path => (path, seriesColor index)).toList ++
          strokesFrom platform frame.viewport frame.bounds frame.canvas (index + 1) rest := by
      unfold strokesFrom
      rw [List.zipIdx_cons, List.filterMap_cons]
      cases (curve.chartSeries.bind fun series =>
        strokeOf platform frame.viewport frame.bounds frame.canvas series curve.dashed).map
          fun path => (path, seriesColor index) <;> rfl
    unfold ChartLayer.pathsFrom
    cases hchart : curve.chartSeries with
    | none =>
      obtain ⟨hpaths, hkept⟩ := ih hl (index + 1) hrest
      exact ⟨by rw [hzip, hchart]; simpa using hpaths, hkept⟩
    | some series =>
      have hseries : series ∈ snapshot.drawn :=
        List.mem_filterMap.mpr ⟨curve, hcurves curve List.mem_cons_self, hchart⟩
      obtain ⟨hpath, hpainted⟩ := hl.pathOf hrevision hkeyed hseries hcanvas curve.dashed
      obtain ⟨hpaths, hkept⟩ := ih hpainted (index + 1) hrest
      refine ⟨?_, hkept⟩
      rw [hzip, hchart, Option.bind_some]
      dsimp only
      rw [hpath, hpaths]
      cases strokeOf platform frame.viewport frame.bounds frame.canvas series curve.dashed <;> simp

omit hcanvas hseries hrevision in
theorem ChartLayer.Faithful.prepare (revision64 : UInt64) (hr : revision64.toNat = revision)
    (viewport : Viewport F64) (bounds : Bounds F32) (dark : Bool) :
    (layer.prepare platform snapshot revision64 viewport bounds dark).1 =
      snapshot.strokes platform viewport bounds ∧
      (layer.prepare platform snapshot revision64 viewport bounds dark).2.Faithful platform revision
      (some snapshot) := by
  have hbounds : ChartLayer.Faithful platform { layer with bounds := some bounds } revision (some snapshot) :=
    ⟨hl.projected, hl.built⟩
  unfold ChartLayer.prepare CurveSnapshot.strokes
  dsimp only
  cases hcanvas : CanvasSize.new bounds.width.toF64 bounds.height.toF64 with
  | error e => exact ⟨rfl, hbounds⟩
  | ok canvas =>
    have hframe : (Frame.mk revision64 viewport bounds canvas dark).revision.toNat = revision := hr
    exact hbounds.pathsFrom hframe hkeyed hcanvas 0 fun _ h => h

end

/-! ## The app -/

/-- A core with no more expectations and no other curves than another. -/
structure Shrinks (core core' : ViewerCore) : Prop where
  expected : Narrows core core'
  overview : core'.overview = core.overview ∨ core'.overview = none
  detail : core'.detail = core.detail ∨ core'.detail = none

theorem Shrinks.of_effect {core core' : ViewerCore} (h : Keeps core core' ∨ Clears core core') :
    Shrinks core core' := by
  rcases h with h | h
  · exact ⟨h.expected, h.overview, h.detail⟩
  · exact ⟨h.narrows, Or.inr h.overview, Or.inr h.detail⟩

/-- Below its bound the counter has counted. -/
theorem unsaturated {n : Nat} (h : min (n + 1) u64Max < u64Max) : min (n + 1) u64Max = n + 1 := by omega

namespace ViewerApp

/-- The revisions are behind what is expected, and the layers faithful to what is shown. -/
structure Framed {Path : Type} (platform : Platform Path) (app : ViewerApp Path) : Prop where
  overviewBefore : app.overviewRevision < app.nextGeneration
  detailBefore : app.detailRevision < app.nextGeneration
  begun : ∀ kind generation, app.core.expected kind = some generation → generation < app.nextGeneration
  overviewAhead : ∀ generation, app.core.expected .overview = some generation → app.overviewRevision < generation
  detailAhead : ∀ generation, app.core.expected .detail = some generation → app.detailRevision < generation
  overview : app.adapter.overview.Faithful platform app.overviewRevision app.core.overview
  detail : app.adapter.detail.Faithful platform app.detailRevision app.core.detail
  overviewKeyed : ∀ snapshot, app.core.overview = some snapshot → snapshot.Keyed
  detailKeyed : ∀ snapshot, app.core.detail = some snapshot → snapshot.Keyed
  events : ∀ event ∈ app.reader.events, ∀ snapshot curves, event.result = .ok snapshot →
    snapshot.curves = some curves → curves.Keyed

section
variable {Path : Type} {platform : Platform Path} {app : ViewerApp Path} {sourceText : StorageError → String}
  {queryText : QueryError → String} {accepts : Int → Bool} {op : WorkerOp}

theorem framed_init : Framed platform ({} : ViewerApp Path) where
  overviewBefore := Nat.zero_lt_one
  detailBefore := Nat.zero_lt_one
  begun _ _ h := by cases h
  overviewAhead _ h := by cases h
  detailAhead _ h := by cases h
  overview := faithful_empty _ _ _
  detail := faithful_empty _ _ _
  overviewKeyed _ h := by cases h
  detailKeyed _ h := by cases h
  events _ h := by cases h

variable (h : app.Framed platform)
include h

theorem Framed.shrink (app' : ViewerApp Path) (hcore : Shrinks app.core app'.core)
    (hevents : ∀ event ∈ app'.reader.events, ∀ snapshot curves, event.result = .ok snapshot →
      snapshot.curves = some curves → curves.Keyed) (hnext : app'.nextGeneration = app.nextGeneration)
    (hrevisions : app'.overviewRevision = app.overviewRevision ∧ app'.detailRevision = app.detailRevision)
    (hadapter : app'.adapter = app.adapter) : app'.Framed platform where
  overviewBefore := by rw [hrevisions.1, hnext]; exact h.overviewBefore
  detailBefore := by rw [hrevisions.2, hnext]; exact h.detailBefore
  begun kind generation he := by rw [hnext]; exact h.begun kind generation (hcore.expected.expected he)
  overviewAhead generation he := by rw [hrevisions.1]; exact h.overviewAhead generation (hcore.expected.expected he)
  detailAhead generation he := by rw [hrevisions.2]; exact h.detailAhead generation (hcore.expected.expected he)
  overview := by rw [hadapter, hrevisions.1]; exact h.overview.drop hcore.overview
  detail := by rw [hadapter, hrevisions.2]; exact h.detail.drop hcore.detail
  overviewKeyed snapshot hs := by
    rcases hcore.overview with e | e
    · exact h.overviewKeyed snapshot (e ▸ hs)
    · simp [e] at hs
  detailKeyed snapshot hs := by
    rcases hcore.detail with e | e
    · exact h.detailKeyed snapshot (e ▸ hs)
    · simp [e] at hs
  events := hevents

/-- A request is expected under a generation that no revision has reached. -/
theorem Framed.request {request : ReadRequest} (hlt : (app.submit request).nextGeneration < u64Max) :
    (app.submit request).Framed platform := by
  unfold submit at hlt ⊢
  cases hw : app.worker with
  | absent => simpa only [hw] using h
  | running =>
    simp only [hw] at hlt ⊢
    have hnext : min (app.nextGeneration + 1) u64Max = app.nextGeneration + 1 := unsaturated hlt
    have hexpected : ∀ kind generation,
        (app.reader.core.begin app.nextGeneration request).expected kind = some generation →
        generation = app.nextGeneration ∨ app.core.expected kind = some generation := by
      intro kind generation he
      by_cases hk : kind = request.kind
      · exact Or.inl (by simpa [ViewerCore.begin, hk] using he.symm)
      · exact Or.inr (by simpa [ViewerCore.begin, hk, ViewerApp.core] using he)
    rw [hnext]
    refine ⟨Nat.lt_succ_of_lt h.overviewBefore, Nat.lt_succ_of_lt h.detailBefore, fun kind generation he => ?_,
      fun generation he => ?_, fun generation he => ?_, h.overview, h.detail, h.overviewKeyed, h.detailKeyed,
      h.events⟩
    · rcases hexpected kind generation he with rfl | he
      · exact Nat.lt_succ_self _
      · exact Nat.lt_succ_of_lt (h.begun kind generation he)
    · rcases hexpected .overview generation he with rfl | he
      · exact h.overviewBefore
      · exact h.overviewAhead generation he
    · rcases hexpected .detail generation he with rfl | he
      · exact h.detailBefore
      · exact h.detailAhead generation he
  | stopped =>
    simp only [hw] at hlt ⊢
    have hnext : min (app.nextGeneration + 1) u64Max = app.nextGeneration + 1 := unsaturated hlt
    rw [hnext]
    exact ⟨Nat.lt_succ_of_lt h.overviewBefore, Nat.lt_succ_of_lt h.detailBefore,
      fun kind generation he => Nat.lt_succ_of_lt (h.begun kind generation he), h.overviewAhead, h.detailAhead,
      h.overview, h.detail, h.overviewKeyed, h.detailKeyed, h.events⟩

theorem Framed.close (path : String) (worker : WorkerHandle) (localError : Option String) :
    (app.closed path worker localError).Framed platform where
  overviewBefore := h.overviewBefore
  detailBefore := h.detailBefore
  begun _ _ he := by cases he
  overviewAhead _ he := by cases he
  detailAhead _ he := by cases he
  overview := faithful_empty _ _ _
  detail := faithful_empty _ _ _
  overviewKeyed _ he := by cases he
  detailKeyed _ he := by cases he
  events _ he := by cases he

theorem Framed.receive {event : ReadEvent} {events : List ReadEvent} {core : ViewerCore} {outcome : ApplyOutcome}
    (he : app.reader.events = event :: events) (ha : app.core.apply event = some (core, outcome)) :
    (app.received event events core outcome).Framed platform := by
  have hevents : ∀ e ∈ events, e ∈ app.reader.events := fun e hin => he ▸ List.mem_cons_of_mem _ hin
  have hkeyed := h.events event (he ▸ List.mem_cons_self)
  have hreceived : Shrinks app.core (app.core.received event) :=
    ⟨(keeps_dropped app.core event.kind).expected, Or.inl rfl, Or.inl rfl⟩
  -- without a new snapshot of curves the revisions stay
  have hquiet : Shrinks app.core core → (¬ Stored event outcome .overview) → (¬ Stored event outcome .detail) →
      (app.received event events core outcome).Framed platform := fun hcore ho hd =>
    h.shrink (app.received event events core outcome) hcore (fun e hin => h.events e (hevents e hin)) rfl
      ⟨if_neg ho, if_neg hd⟩ rfl
  rcases apply_cases app.core ha with ⟨rfl, hout⟩ | ⟨rfl, hexp, hcase⟩
  · exact hquiet ⟨fun _ => Or.inl rfl, Or.inl rfl, Or.inl rfl⟩ (fun hs => hout hs.1) fun hs => hout hs.1
  rcases hcase with ⟨error, hr, rfl⟩ | ⟨s, hr, hk, rfl⟩ | ⟨s, hr, hk, ho⟩ | ⟨s, hr, hk, rfl⟩
  · exact hquiet ⟨hreceived.expected, Or.inl rfl, Or.inl rfl⟩ (fun hs => by
      simp [Stored, hr, Except.isOk, Except.toBool] at hs)
      fun hs => by simp [Stored, hr, Except.isOk, Except.toBool] at hs
  · have hcore := Shrinks.of_effect (applyCatalog_effect (app.core.received event) s)
    refine hquiet ⟨hreceived.expected.trans hcore.expected, hcore.overview, hcore.detail⟩
      (fun hs => ?_) fun hs => ?_
    · exact absurd (hk.symm.trans hs.2.2) (by simp)
    · exact absurd (hk.symm.trans hs.2.2) (by simp)
  · obtain ⟨hover, hkeeps⟩ := applyOverview_effect _ ho
    have hnarrows : Narrows app.core core := hreceived.expected.trans hkeeps.expected
    have hnone : core.expected .overview = none := hk ▸ (apply_applied ha).2.2
    rw [hk] at hexp
    have hstored : Stored event .applied .overview := ⟨rfl, by simp [hr, Except.isOk, Except.toBool], hk⟩
    have hother : ¬ Stored event .applied .detail := fun hs => absurd (hk.symm.trans hs.2.2) (by simp)
    have hrevision : (app.received event events core .applied).overviewRevision = event.generation := if_pos hstored
    have hsame : (app.received event events core .applied).detailRevision = app.detailRevision := if_neg hother
    refine ⟨?_, ?_, fun kind g hg => h.begun kind g (hnarrows.expected hg), fun g hg => ?_, fun g hg => ?_, ?_, ?_,
      fun t ht => ?_, fun t ht => ?_, fun e hin => h.events e (hevents e hin)⟩
    · rw [hrevision]; exact h.begun .overview event.generation hexp
    · rw [hsame]; exact h.detailBefore
    · exact absurd (hnone.symm.trans hg) (by simp)
    · rw [hsame]; exact h.detailAhead g (hnarrows.expected hg)
    · rw [hrevision]; exact h.overview.renew (h.overviewAhead event.generation hexp) _
    · rw [hsame]; exact h.detail.drop hkeeps.detail
    · cases hover.symm.trans ht
      exact hkeyed _ _ hr rfl
    · rcases hkeeps.detail with e | e
      · exact h.detailKeyed t (e.symm.trans ht)
      · exact absurd (e.symm.trans ht) (by simp)
  · have hnone : (app.core.received event).expected .detail = none := by simp [ViewerCore.received, hk]
    rw [hk] at hexp
    have hstored : Stored event .applied .detail := ⟨rfl, by simp [hr, Except.isOk, Except.toBool], hk⟩
    have hother : ¬ Stored event .applied .overview := fun hs => absurd (hk.symm.trans hs.2.2) (by simp)
    have hrevision :
      (app.received event events { app.core.received event with detail := some s } .applied).detailRevision =
        event.generation := if_pos hstored
    have hsame :
      (app.received event events { app.core.received event with detail := some s } .applied).overviewRevision =
        app.overviewRevision := if_neg hother
    refine ⟨?_, ?_, fun kind g hg => h.begun kind g (hreceived.expected.expected hg),
      fun g hg => ?_, fun g hg => ?_, ?_, ?_, h.overviewKeyed, fun t ht => ?_,
      fun e hin => h.events e (hevents e hin)⟩
    · rw [hsame]; exact h.overviewBefore
    · rw [hrevision]; exact h.begun .detail event.generation hexp
    · rw [hsame]; exact h.overviewAhead g (hreceived.expected.expected hg)
    · exact absurd (hnone.symm.trans hg) (by simp)
    · rw [hsame]; exact h.overview
    · rw [hrevision]; exact h.detail.renew (h.detailAhead event.generation hexp) _
    · cases ht
      exact hkeyed _ _ hr rfl

theorem Framed.work (hallowed : ReadsStore sourceText queryText accepts op) {reader : Reader}
    (hr : app.reader.step op.toReader = some reader) :
    ({ app with reader := reader } : ViewerApp Path).Framed platform := by
  obtain ⟨hcore, -, hevents⟩ := work_effect hr
  have hsame : Shrinks app.core reader.core := by
    rw [hcore]
    exact ⟨fun _ => Or.inl rfl, Or.inl rfl, Or.inl rfl⟩
  refine h.shrink { app with reader := reader } hsame (fun event he snapshot curves hs hc => ?_) rfl ⟨rfl, rfl⟩ rfl
  rcases hevents event he with he | ⟨session, t, rfl, -, rfl⟩
  · exact h.events event he snapshot curves hs hc
  · obtain ⟨store, selection, viewport, hn, hq⟩ := execute_curves hallowed hs hc
    exact hq.keyed hn

end

/-! ## Frames -/

section
variable {Path : Type} {platform : Platform Path}

theorem drawLayer_faithful {layer : ChartLayer Path} {revision : Generation} {stored : Option CurveSnapshot}
    (hl : layer.Faithful platform revision stored) (hrevision : revision < u64Max)
    {shown : Option (CurveSnapshot × Viewport F64)} (hshown : ∀ s, shown = some s → stored = some s.1)
    (hkeyed : ∀ snapshot, stored = some snapshot → snapshot.Keyed) (bounds : Bounds F32) (dark : Bool) :
    (drawLayer platform layer shown revision bounds dark).1 = shown.map (fun s => s.1.strokes platform s.2 bounds) ∧
      (drawLayer platform layer shown revision bounds dark).2.Faithful platform revision stored := by
  cases shown with
  | none => exact ⟨rfl, hl⟩
  | some s =>
    have hstored := hshown s rfl
    have hr : (UInt64.ofNat revision).toNat = revision := by
      rw [UInt64.toNat_ofNat']
      exact Nat.mod_eq_of_lt (Nat.lt_trans hrevision (by decide))
    rw [hstored] at hl ⊢
    obtain ⟨hpaths, hkept⟩ := hl.prepare (hkeyed s.1 hstored) (UInt64.ofNat revision) hr s.2 bounds dark
    exact ⟨by simp only [drawLayer, hpaths, Option.map_some], hkept⟩

variable {app : ViewerApp Path}

theorem shownDetail_stored {shown : CurveSnapshot × Viewport F64} (h : app.shownDetail = some shown) :
    app.core.detail = some shown.1 := by
  unfold shownDetail at h
  split at h
  · obtain ⟨snapshot, hs, h⟩ := Option.bind_eq_some_iff.mp h
    obtain ⟨viewport, -, h⟩ := Option.bind_eq_some_iff.mp h
    cases h
    exact hs
  · cases h

theorem shownOverview_stored {shown : CurveSnapshot × Viewport F64} (h : app.shownOverview = some shown) :
    app.core.overview = some shown.1 := by
  obtain ⟨_, -, h⟩ := Option.bind_eq_some_iff.mp h
  obtain ⟨snapshot, hs, h⟩ := Option.bind_eq_some_iff.mp h
  obtain ⟨brush, -, h⟩ := Option.bind_eq_some_iff.mp h
  obtain ⟨viewport, -, h⟩ := Option.bind_eq_some_iff.mp h
  cases h
  exact hs

theorem Asks.shownDetail {app' : ViewerApp Path} (h : Asks app app') : app'.shownDetail = app.shownDetail := by
  unfold ViewerApp.shownDetail
  rw [h.catalog, h.detail, h.brush]

theorem Asks.shownOverview {app' : ViewerApp Path} (h : Asks app app') :
    app'.shownOverview = app.shownOverview := by
  unfold ViewerApp.shownOverview
  rw [h.shownDetail, h.overview, h.brush]

variable (h : app.Framed platform) (hlt : app.nextGeneration < u64Max)
include h hlt

theorem Framed.layers (layout : Layout) :
    (drawLayer platform app.adapter.detail app.shownDetail app.detailRevision layout.detail layout.dark).1 =
        app.shownDetail.map (fun s => s.1.strokes platform s.2 layout.detail) ∧
      (drawLayer platform app.adapter.overview app.shownOverview app.overviewRevision layout.overview
        layout.dark).1 =
        app.shownOverview.map (fun s => s.1.strokes platform s.2 layout.overview) ∧
      (app.painted platform layout).Framed platform := by
  obtain ⟨hdetail, hdetail'⟩ := drawLayer_faithful h.detail (Nat.lt_trans h.detailBefore hlt)
    (fun _ => shownDetail_stored) h.detailKeyed layout.detail layout.dark
  obtain ⟨hoverview, hoverview'⟩ := drawLayer_faithful h.overview (Nat.lt_trans h.overviewBefore hlt)
    (fun _ => shownOverview_stored) h.overviewKeyed layout.overview layout.dark
  exact ⟨hdetail, hoverview, h.overviewBefore, h.detailBefore, h.begun, h.overviewAhead, h.detailAhead,
    hoverview', hdetail',
    h.overviewKeyed, h.detailKeyed, h.events⟩

end

section
variable {Path : Type} {platform : Platform Path} {sourceText : StorageError → String}
    {queryText : QueryError → String}
  {accepts : Int → Bool}

/-- The counter never falls below its bound again. -/
theorem move_unsaturated {allowed : WorkerOp → Prop} {app app' : ViewerApp Path}
    (hm : Move platform allowed app app')
    (hlt : app'.nextGeneration < u64Max) : app.nextGeneration < u64Max := by
  cases hm with
  | request hb =>
    unfold submit at hlt
    cases hw : app.worker with
    | absent => simpa only [hw] using hlt
    | running =>
      simp only [hw] at hlt
      exact Nat.lt_of_succ_lt ((unsaturated hlt).symm.trans_lt hlt)
    | stopped =>
      simp only [hw] at hlt
      exact Nat.lt_of_succ_lt ((unsaturated hlt).symm.trans_lt hlt)
  | beside hb => rw [hb] at hlt; exact hlt
  | _ => exact hlt

theorem moves_unsaturated {allowed : WorkerOp → Prop} {app app' : ViewerApp Path}
    (hm : Moves platform allowed app app')
    (hlt : app'.nextGeneration < u64Max) : app.nextGeneration < u64Max := by
  induction hm with
  | refl => exact hlt
  | tail _ hm ih => exact ih (move_unsaturated hm hlt)

theorem move_framed {app app' : ViewerApp Path}
    (hm : Move platform (ReadsStore sourceText queryText accepts) app app')
    (h : app.nextGeneration < u64Max → app.Framed platform) (hlt : app'.nextGeneration < u64Max) :
    app'.Framed platform := by
  have happ := h (move_unsaturated hm hlt)
  cases hm with
  | close path worker localError => exact happ.close path worker localError
  | user op _ =>
    exact happ.shrink _ (Shrinks.of_effect (change_effect app.core op)) happ.events rfl ⟨rfl, rfl⟩ rfl
  | gesture _ _ => exact happ.shrink _ ⟨fun _ => Or.inl rfl, Or.inl rfl, Or.inl rfl⟩ happ.events rfl ⟨rfl, rfl⟩ rfl
  | request _ => exact happ.request hlt
  | receive he ha => exact happ.receive he ha
  | work hop _ hr => exact happ.work hop hr
  | stop _ => exact happ.shrink _ ⟨fun _ => Or.inl rfl, Or.inl rfl, Or.inl rfl⟩ happ.events rfl ⟨rfl, rfl⟩ rfl
  | paint layout => exact (happ.layers hlt layout).2.2
  | beside hb =>
    rw [hb]
    exact happ.shrink _ ⟨fun _ => Or.inl rfl, Or.inl rfl, Or.inl rfl⟩ happ.events rfl ⟨rfl, rfl⟩ rfl

/-- Until the counter saturates, every frame of every run paints the strokes of
the snapshots that are shown, as if nothing had been kept of earlier frames. -/
theorem frames_without_caches {ops : List AppOp} {app : ViewerApp Path}
    (hm : Meets (step platform) (fun _ op => Works (ReadsStore sourceText queryText accepts) op) {} ops)
    (h : exec (step platform) {} ops = some app) (hlt : app.nextGeneration < u64Max) (layout : Layout) :
    (app.draw platform layout).1 =
      ⟨app.shownDetail.map fun s => s.1.strokes platform s.2 layout.detail,
        app.shownOverview.map fun s => s.1.strokes platform s.2 layout.overview⟩ := by
  have hframed : app.nextGeneration < u64Max → app.Framed platform :=
    @exec_inv _ _ (step platform) _ (fun app => app.nextGeneration < u64Max → app.Framed platform)
      (fun _ _ _ hop hs => Moves.inv (fun _ _ => move_framed) (step_moves hop hs)) _ _ _ hm h fun _ => framed_init
  have hasks := asks_reconcile app layout.scaleFactor
  obtain ⟨hdetail, hoverview, -⟩ := (hframed hlt).layers hlt layout
  unfold draw
  simp only [hasks.adapter, hasks.shownDetail, hasks.shownOverview, hasks.detailRevision,
    hasks.overviewRevision, hdetail, hoverview]

/-! A source with two points of a run is read until their curve is shown and painted
twice. -/

def positions : Platform (List (Position F32)) where
  buildStroke _ path := some path
  hypot x _ := x
  exp _ := F32.one
  toLowercase := id

def pairSource : Source where
  runs := [⟨"r", "p", "", .running, 0, 0, none⟩]
  points := [⟨"r", "k", "k", 0, 0, F64.one, 10⟩, ⟨"r", "k", "k", 10, 0, F64.ofInt 2, 11⟩]
  aggregates := []
  projects := [⟨"p", "", 0⟩]

def readPair : List AppOp :=
  [.work .recv, .work .drained, .work .take,
    .work (.execute (.ok (pairSource.session (fun _ => "") (fun _ => "") nearEpoch))), .work .drained,
      .work .take, .event]

def squares : Layout :=
  ⟨⟨⟨0⟩, ⟨0⟩, ⟨0x42c80000⟩, ⟨0x42c80000⟩⟩, ⟨⟨0⟩, ⟨0⟩, ⟨0x42c80000⟩, ⟨0x42c80000⟩⟩, false, F32.one⟩

def pairOps : List AppOp :=
  [.openSource "s" (.ok ())] ++ readPair ++ [.selectProject "p"] ++ readPair ++ [.toggleRun "r"] ++ readPair ++
    [.selectMetric "k"] ++ readPair ++ readPair

theorem readPair_works : ∀ op ∈ readPair, Works (ReadsStore (fun _ => "") (fun _ => "") nearEpoch) op := by
  simp only [readPair, List.mem_cons, List.not_mem_nil, or_false, forall_eq_or_imp, forall_eq, Works, ReadsStore,
    true_and, and_true, Except.ok.injEq]
  rintro _ rfl
  exact ⟨pairSource, by simp [pairSource], rfl⟩

theorem pairOps_works : ∀ op ∈ pairOps, Works (ReadsStore (fun _ => "") (fun _ => "") nearEpoch) op := by
  simp only [pairOps, List.forall_mem_append]
  refine ⟨⟨⟨⟨⟨⟨⟨⟨?_, readPair_works⟩, ?_⟩, readPair_works⟩, ?_⟩, readPair_works⟩, ?_⟩, readPair_works⟩,
    readPair_works⟩
  all_goals simp [Works]

theorem frames_without_caches_pair : ∃ app shown,
    exec (step positions) {} (pairOps ++ [.draw squares, .draw squares]) = some app ∧
    app.shownDetail = some shown ∧ (app.adapter.detail.gpuiPaths "r").isSome = true ∧
    (app.draw positions squares).1.detail = some (shown.1.strokes positions shown.2 squares.detail) := by
  have hrun : (exec (step positions) {} (pairOps ++ [.draw squares, .draw squares])).any (fun app =>
      decide (app.nextGeneration < u64Max) && app.shownDetail.isSome &&
        (app.adapter.detail.gpuiPaths "r").isSome) = true := by
    decide +kernel
  obtain ⟨app, happ, h⟩ := (Option.any_eq_true _ _).mp hrun
  simp only [Bool.and_eq_true, decide_eq_true_eq] at h
  obtain ⟨⟨hlt, hshown⟩, hkept⟩ := h
  obtain ⟨shown, hs⟩ := Option.isSome_iff_exists.mp hshown
  have hworks : ∀ op ∈ pairOps ++ [.draw squares, .draw squares],
      Works (ReadsStore (fun _ => "") (fun _ => "") nearEpoch) op := by
    intro op hop
    simp only [List.mem_append, List.mem_cons, List.not_mem_nil, or_false] at hop
    rcases hop with hop | rfl | rfl
    · exact pairOps_works op hop
    · trivial
    · trivial
  have hm := meets_of_forall (step positions) (fun _ op hop => hworks op hop) {}
  refine ⟨app, shown, happ, hs, hkept, ?_⟩
  rw [frames_without_caches hm happ hlt squares, hs, Option.map_some]

end

end ViewerApp

end Pulseon
