import Pulseon.Viewer

/-!
# The viewer shows what is selected

Every operation either leaves the selection and drops curves and expectations,
or clears both. So whatever is expected was asked for the current selection,
and so is whatever is stored.
-/

namespace Pulseon

/-! ## Operations -/

/-- Nothing is added: curves and expectations stay or go. -/
structure Keeps (core core' : ViewerCore) : Prop where
  selection : core'.selection = core.selection
  axis : core'.axis = core.axis
  expected : ∀ kind, core'.expected kind = core.expected kind ∨ core'.expected kind = none
  overview : core'.overview = core.overview ∨ core'.overview = none
  detail : core'.detail = core.detail ∨ core'.detail = none

/-- No curve is left or expected. -/
structure Clears (core core' : ViewerCore) : Prop where
  catalog : core'.expected .catalog = core.expected .catalog ∨ core'.expected .catalog = none
  expectedOverview : core'.expected .overview = none
  expectedDetail : core'.expected .detail = none
  overview : core'.overview = none
  detail : core'.detail = none

theorem Keeps.refl (core : ViewerCore) : Keeps core core :=
  ⟨rfl, rfl, fun _ => Or.inl rfl, Or.inl rfl, Or.inl rfl⟩

section
variable (core : ViewerCore)

@[simp] theorem setExpected_expected (kind k : ReadKind) (generation : Option Generation) :
    (core.setExpected kind generation).expected k = if k = kind then generation else core.expected k := rfl

theorem keeps_dropped (kind : ReadKind) : Keeps core (core.setExpected kind none) := by
  refine ⟨rfl, rfl, fun k => ?_, Or.inl rfl, Or.inl rfl⟩
  by_cases h : k = kind <;> simp [h]

theorem clears_clearCurves {selected : ViewerCore} (h : selected.expected = core.expected) :
    Clears core selected.clearCurves := by
  refine ⟨Or.inl ?_, rfl, rfl, rfl, rfl⟩
  rw [← h]
  rfl

theorem change_effect (op : UserOp) : Keeps core (core.change op) ∨ Clears core (core.change op) := by
  cases op with
  | selectProject projectId =>
    simp only [ViewerCore.change, ViewerCore.selectProject]
    by_cases h : core.selection.projectId = projectId
    · rw [if_pos h]
      exact Or.inl (Keeps.refl core)
    · rw [if_neg h]
      exact Or.inr (clears_clearCurves core rfl)
  | toggleRun runId =>
    simp only [ViewerCore.change, ViewerCore.toggleRun]
    by_cases h : runId ∈ core.selection.runIds
    · rw [if_pos h]
      exact Or.inr (clears_clearCurves core rfl)
    · rw [if_neg h]
      by_cases hl : core.selection.runIds.length = maxSelectedRuns
      · rw [if_pos hl]
        exact Or.inl (Keeps.refl core)
      · rw [if_neg hl]
        exact Or.inr (clears_clearCurves core rfl)
  | selectMetric metricKey =>
    simp only [ViewerCore.change, ViewerCore.selectMetric]
    by_cases h : core.selection.metricKey = metricKey
    · rw [if_pos h]
      exact Or.inl (Keeps.refl core)
    · rw [if_neg h]
      exact Or.inr (clears_clearCurves core rfl)
  | selectAxis axis =>
    simp only [ViewerCore.change, ViewerCore.selectAxis]
    by_cases h : core.axis = axis
    · rw [if_pos h]
      exact Or.inl (Keeps.refl core)
    · rw [if_neg h]
      exact Or.inr (clears_clearCurves core rfl)
  | resetSource => exact Or.inr ⟨Or.inr rfl, rfl, rfl, rfl, rfl⟩
  | resetView => exact Or.inl ⟨rfl, rfl, fun _ => Or.inl rfl, Or.inl rfl, Or.inl rfl⟩
  | moveBrush brush => exact Or.inl ⟨rfl, rfl, fun _ => Or.inl rfl, Or.inl rfl, Or.inl rfl⟩

theorem applyCatalog_effect (snapshot : CatalogSnapshot) :
    Keeps core (core.applyCatalog snapshot) ∨ Clears core (core.applyCatalog snapshot) := by
  unfold ViewerCore.applyCatalog
  by_cases h : core.reconciled snapshot = core.selection
  · left
    simp only [h, ite_true]
    exact ⟨rfl, rfl, fun _ => Or.inl rfl, Or.inl rfl, Or.inl rfl⟩
  · right
    simp only [h, ite_false]
    exact ⟨Or.inl rfl, rfl, rfl, rfl, rfl⟩

theorem applyOverview_effect {snapshot : CurveSnapshot} {core' : ViewerCore}
    (h : core.applyOverview snapshot = some core') :
    core'.overview = some snapshot ∧ Keeps { core with overview := some snapshot } core' := by
  obtain ⟨brush, -, rfl⟩ := Option.map_eq_some_iff.mp h
  unfold ViewerCore.storeOverview
  cases brush with
  | none =>
    refine ⟨rfl, rfl, rfl, fun k => ?_, Or.inl rfl, Or.inr rfl⟩
    by_cases hk : k = .detail <;> simp [hk]
  | some b => exact ⟨rfl, rfl, rfl, fun _ => Or.inl rfl, Or.inl rfl, Or.inl rfl⟩

/-- What the core has left of an event once it is the expected one. -/
def ViewerCore.received (event : ReadEvent) : ViewerCore := core.setExpected event.kind none

/-- An event is ignored, or it is the expected one and its result is stored. -/
theorem apply_cases {event : ReadEvent} {core' : ViewerCore} {outcome : ApplyOutcome}
    (h : core.apply event = some (core', outcome)) :
    (core' = core ∧ outcome ≠ .applied) ∨
      (outcome = .applied ∧ core.expected event.kind = some event.generation ∧
        ((∃ error, event.result = .error error ∧ core' = { core.received event with lastError := some error }) ∨
          (∃ s, event.result = .ok (.catalog s) ∧ event.kind = .catalog ∧
            core' = (core.received event).applyCatalog s) ∨
          (∃ s, event.result = .ok (.overview s) ∧ event.kind = .overview ∧
            (core.received event).applyOverview s = some core') ∨
          ∃ s, event.result = .ok (.detail s) ∧ event.kind = .detail ∧
            core' = { core.received event with detail := some s })) := by
  unfold ViewerCore.apply at h
  by_cases hg : core.expected event.kind = some event.generation
  · rw [if_neg (not_not_intro hg)] at h
    cases hr : event.result with
    | error error =>
      rw [hr] at h
      cases h
      exact Or.inr ⟨rfl, hg, Or.inl ⟨error, rfl, rfl⟩⟩
    | ok snapshot =>
      simp only [hr] at h
      by_cases hk : snapshot.kind = event.kind
      · rw [if_neg (not_not_intro hk)] at h
        cases snapshot with
        | catalog s =>
          cases h
          exact Or.inr ⟨rfl, hg, Or.inr (Or.inl ⟨s, rfl, hk.symm, rfl⟩)⟩
        | overview s =>
          obtain ⟨c, hc, e⟩ := Option.map_eq_some_iff.mp h
          cases e
          exact Or.inr ⟨rfl, hg, Or.inr (Or.inr (Or.inl ⟨s, rfl, hk.symm, hc⟩))⟩
        | detail s =>
          cases h
          exact Or.inr ⟨rfl, hg, Or.inr (Or.inr (Or.inr ⟨s, rfl, hk.symm, rfl⟩))⟩
      · rw [if_pos hk] at h
        cases h
        exact Or.inl ⟨rfl, by simp⟩
  · rw [if_pos hg] at h
    cases h
    exact Or.inl ⟨rfl, by simp⟩

end

/-! ## Selected runs -/

structure ViewerSelection.Limited (selection : ViewerSelection) : Prop where
  distinct : selection.runIds.Nodup
  limited : selection.runIds.length ≤ maxSelectedRuns

theorem limited_empty : ViewerSelection.Limited {} := ⟨List.nodup_nil, Nat.zero_le _⟩

section
variable {core : ViewerCore} (h : core.selection.Limited)
include h

theorem toggleRun_limited (runId : RunId) : (core.toggleRun runId).1.selection.Limited := by
  unfold ViewerCore.toggleRun
  by_cases hmem : runId ∈ core.selection.runIds
  · rw [if_pos hmem]
    exact ⟨h.distinct.erase _, le_trans List.length_erase_le h.limited⟩
  · rw [if_neg hmem]
    by_cases hl : core.selection.runIds.length = maxSelectedRuns
    · rw [if_pos hl]
      exact h
    · rw [if_neg hl]
      have hlimited := h.limited
      refine ⟨?_, ?_⟩
      · simp only [ViewerCore.clearCurves, ViewerCore.setExpected, List.nodup_append, List.nodup_singleton,
          List.mem_singleton, forall_eq, true_and]
        exact ⟨h.distinct, fun x hx e => hmem (e ▸ hx)⟩
      · simp only [ViewerCore.clearCurves, ViewerCore.setExpected, List.length_append, List.length_singleton]
        omega

theorem change_limited (op : UserOp) : (core.change op).selection.Limited := by
  cases op with
  | selectProject projectId =>
    simp only [ViewerCore.change, ViewerCore.selectProject]
    by_cases hp : core.selection.projectId = projectId
    · rw [if_pos hp]
      exact h
    · rw [if_neg hp]
      exact ⟨List.nodup_nil, Nat.zero_le _⟩
  | toggleRun runId => exact toggleRun_limited h runId
  | selectMetric metricKey =>
    simp only [ViewerCore.change, ViewerCore.selectMetric]
    by_cases hk : core.selection.metricKey = metricKey
    · rw [if_pos hk]
      exact h
    · rw [if_neg hk]
      exact ⟨h.distinct, h.limited⟩
  | selectAxis axis =>
    simp only [ViewerCore.change, ViewerCore.selectAxis]
    by_cases ha : core.axis = axis
    · rw [if_pos ha]
      exact h
    · rw [if_neg ha]
      exact h
  | resetSource => exact limited_empty
  | resetView => exact h
  | moveBrush brush => exact h

theorem reconciled_limited {snapshot : CatalogSnapshot} (hd : (snapshot.runs.map Run.runId).Nodup) :
    (core.reconciled snapshot).Limited := by
  unfold ViewerCore.reconciled
  split
  · have hn : ((snapshot.runs.filter fun run => core.selection.runIds.contains run.runId).map Run.runId).Nodup :=
      (List.filter_sublist.map _).nodup hd
    refine ⟨hn, le_trans (List.subperm_of_subset hn ?_).length_le h.limited⟩
    intro runId hmem
    obtain ⟨run, hrun, rfl⟩ := List.mem_map.mp hmem
    simpa using (List.mem_filter.mp hrun).2
  · exact limited_empty

end

/-! ## Current requests -/

/-- What a request asks for is what is selected. -/
def ViewerCore.Current (core : ViewerCore) : ReadRequest → Prop
  | .discover _ => True
  | .overview request => core.Selects request.selection
  | .detail request => core.Selects request.selection

theorem current_of_kind {core : ViewerCore} {request : ReadRequest} (h : request.kind = .catalog) :
    core.Current request := by
  cases request with
  | discover request => trivial
  | overview request => cases h
  | detail request => cases h

theorem curveSelection_selects {core : ViewerCore} {selection : CurveSelection}
    (h : core.curveSelection = some selection) : core.Selects selection := by
  unfold ViewerCore.curveSelection at h
  by_cases hr : core.selection.runIds = []
  · simp [hr] at h
  · rw [if_neg hr] at h
    obtain ⟨metricKey, hm, rfl⟩ := Option.map_eq_some_iff.mp h
    exact ⟨rfl, hm, rfl⟩

theorem builds_current {core : ViewerCore} {request : ReadRequest} (h : core.Builds request) :
    core.Current request := by
  cases h with
  | refreshCatalog => trivial
  | requestOverview width h => exact curveSelection_selects h
  | requestDetail width h hv => exact curveSelection_selects h

theorem current_congr {core core' : ViewerCore} (hs : core'.selection = core.selection)
    (ha : core'.axis = core.axis)
    {request : ReadRequest} (hc : core.Current request) : core'.Current request := by
  cases request with
  | discover request => trivial
  | overview request => simpa only [ViewerCore.Current, ViewerCore.Selects, hs, ha] using hc
  | detail request => simpa only [ViewerCore.Current, ViewerCore.Selects, hs, ha] using hc

theorem Keeps.current {core core' : ViewerCore} (h : Keeps core core') {request : ReadRequest}
    (hc : core.Current request) : core'.Current request :=
  current_congr h.selection h.axis hc

/-! ## Runs -/

/-- A snapshot was returned for a request that is still current. -/
def Reading.Shows (returns : ReadRequest → ReadSnapshot → Prop) (r : Reading) (snapshot : ReadSnapshot) : Prop :=
  ∃ generation request, (generation, request) ∈ r.begun ∧ request.kind = snapshot.kind ∧
    returns request snapshot ∧ r.core.Current request

structure Shown (returns : ReadRequest → ReadSnapshot → Prop) (r : Reading) : Prop where
  limited : r.core.selection.Limited
  fresh : (r.begun.map Prod.fst).Nodup
  expected : ∀ kind generation, r.core.expected kind = some generation →
    ∃ request, (generation, request) ∈ r.begun ∧ request.kind = kind ∧ r.core.Current request
  overview : ∀ snapshot, r.core.overview = some snapshot → r.Shows returns (.overview snapshot)
  detail : ∀ snapshot, r.core.detail = some snapshot → r.Shows returns (.detail snapshot)

section
variable {returns : ReadRequest → ReadSnapshot → Prop} {r : Reading}

theorem shown_init : Shown returns {} :=
  ⟨limited_empty, List.nodup_nil, by simp, by simp, by simp⟩

theorem Reading.Shows.keeps {core : ViewerCore} {snapshot : ReadSnapshot} (hs : r.Shows returns snapshot)
    (h : Keeps r.core core) : Reading.Shows returns { r with core := core } snapshot := by
  obtain ⟨generation, request, hb, hk, hr, hc⟩ := hs
  exact ⟨generation, request, hb, hk, hr, h.current hc⟩

variable (hr : Shown returns r)
include hr

theorem Shown.keeps {core : ViewerCore} (h : Keeps r.core core) : Shown returns { r with core := core } where
  limited := h.selection ▸ hr.limited
  fresh := hr.fresh
  expected kind generation he := by
    rcases h.expected kind with e | e
    · obtain ⟨request, hb, hk, hc⟩ := hr.expected kind generation (e ▸ he)
      exact ⟨request, hb, hk, h.current hc⟩
    · simp [e] at he
  overview snapshot hs := by
    rcases h.overview with e | e
    · exact (hr.overview snapshot (e ▸ hs)).keeps h
    · simp [e] at hs
  detail snapshot hs := by
    rcases h.detail with e | e
    · exact (hr.detail snapshot (e ▸ hs)).keeps h
    · simp [e] at hs

theorem Shown.clears {core : ViewerCore} (h : Clears r.core core) (hl : core.selection.Limited) :
    Shown returns { r with core := core } where
  limited := hl
  fresh := hr.fresh
  expected kind generation he := by
    cases kind with
    | catalog =>
      rcases h.catalog with e | e
      · obtain ⟨request, hb, hk, -⟩ := hr.expected .catalog generation (e ▸ he)
        exact ⟨request, hb, hk, current_of_kind hk⟩
      · simp [e] at he
    | overview => simp [h.expectedOverview] at he
    | detail => simp [h.expectedDetail] at he
  overview snapshot hs := by simp [h.overview] at hs
  detail snapshot hs := by simp [h.detail] at hs

theorem Shown.effect {core : ViewerCore} (h : Keeps r.core core ∨ Clears r.core core)
    (hl : core.selection.Limited) :
    Shown returns { r with core := core } := by
  rcases h with h | h
  · exact hr.keeps h
  · exact hr.clears h hl

theorem Shown.begin {generation : Generation} {request : ReadRequest} (hb : r.core.Builds request)
    (hf : ∀ b ∈ r.begun, b.1 ≠ generation) :
    Shown returns ⟨r.core.begin generation request, (generation, request) :: r.begun⟩ where
  limited := hr.limited
  fresh := by
    simp only [List.map_cons, List.nodup_cons, List.mem_map, not_exists, not_and]
    exact ⟨hf, hr.fresh⟩
  expected kind g he := by
    have hnew : r.core.Current request := builds_current hb
    by_cases hk : kind = request.kind
    · have hg : generation = g := by simpa [ViewerCore.begin, hk] using he
      exact ⟨request, by simp [hg], hk.symm, current_congr rfl rfl hnew⟩
    · have ho : r.core.expected kind = some g := by simpa [ViewerCore.begin, hk] using he
      obtain ⟨old, hold, hkind, hc⟩ := hr.expected kind g ho
      exact ⟨old, List.mem_cons_of_mem _ hold, hkind, current_congr rfl rfl hc⟩
  overview snapshot hs := by
    obtain ⟨g, old, hold, hk, hret, hc⟩ := hr.overview snapshot hs
    exact ⟨g, old, List.mem_cons_of_mem _ hold, hk, hret, current_congr rfl rfl hc⟩
  detail snapshot hs := by
    obtain ⟨g, old, hold, hk, hret, hc⟩ := hr.detail snapshot hs
    exact ⟨g, old, List.mem_cons_of_mem _ hold, hk, hret, current_congr rfl rfl hc⟩

/-- The expected event is one of a current request. -/
theorem Shown.shows {event : ReadEvent} (hl : r.Legal returns (.apply event))
    (he : r.core.expected event.kind = some event.generation) {snapshot : ReadSnapshot}
    (hs : event.result = .ok snapshot) (hk : event.kind = snapshot.kind) : r.Shows returns snapshot := by
  obtain ⟨request, hb, hkind, hret⟩ := hl
  obtain ⟨current, hb', -, hc⟩ := hr.expected _ _ he
  have heq : request = current := by
    have := List.inj_on_of_nodup_map hr.fresh hb hb' rfl
    exact congrArg Prod.snd this
  exact ⟨event.generation, request, hb, hkind.symm.trans hk, hret snapshot hs, heq ▸ hc⟩

theorem Shown.storeOverview {snapshot : CurveSnapshot} (h : r.Shows returns (.overview snapshot)) :
    Shown returns { r with core := { r.core with overview := some snapshot } } where
  limited := hr.limited
  fresh := hr.fresh
  expected := hr.expected
  overview s hs := by cases hs; exact h
  detail := hr.detail

theorem Shown.storeDetail {snapshot : CurveSnapshot} (h : r.Shows returns (.detail snapshot)) :
    Shown returns { r with core := { r.core with detail := some snapshot } } where
  limited := hr.limited
  fresh := hr.fresh
  expected := hr.expected
  overview := hr.overview
  detail s hs := by cases hs; exact h

theorem Shown.applyCatalog {snapshot : CatalogSnapshot} (hd : (snapshot.runs.map Run.runId).Nodup) :
    Shown returns { r with core := r.core.applyCatalog snapshot } := by
  apply hr.effect (applyCatalog_effect r.core snapshot)
  unfold ViewerCore.applyCatalog
  by_cases hs : r.core.reconciled snapshot = r.core.selection
  · simpa only [hs, ite_true] using hr.limited
  · simpa only [hs, ite_false] using reconciled_limited hr.limited hd

theorem Shown.apply
    (hcat : ∀ request snapshot, returns request (.catalog snapshot) → (snapshot.runs.map Run.runId).Nodup)
    {event : ReadEvent} (hl : r.Legal returns (.apply event)) {core : ViewerCore} {outcome : ApplyOutcome}
    (h : r.core.apply event = some (core, outcome)) : Shown returns { r with core := core } := by
  have hreceived : Shown returns { r with core := r.core.received event } :=
    hr.keeps (keeps_dropped r.core event.kind)
  rcases apply_cases r.core h with ⟨rfl, -⟩ | ⟨-, he, hcase⟩
  · exact hr
  rcases hcase with ⟨error, -, rfl⟩ | ⟨s, hs, hk, rfl⟩ | ⟨s, hs, hk, ho⟩ | ⟨s, hs, hk, rfl⟩
  · exact hreceived.keeps ⟨rfl, rfl, fun _ => Or.inl rfl, Or.inl rfl, Or.inl rfl⟩
  · obtain ⟨generation, request, -, -, hret, -⟩ := hr.shows hl he hs hk
    exact hreceived.applyCatalog (hcat request s hret)
  · obtain ⟨-, hkeeps⟩ := applyOverview_effect _ ho
    have hshows := (hr.shows hl he hs hk).keeps (keeps_dropped r.core event.kind)
    exact (hreceived.storeOverview hshows).keeps hkeeps
  · exact hreceived.storeDetail ((hr.shows hl he hs hk).keeps (keeps_dropped r.core event.kind))

end

section
variable {returns : ReadRequest → ReadSnapshot → Prop}
  (hcat : ∀ request snapshot, returns request (.catalog snapshot) → (snapshot.runs.map Run.runId).Nodup)
include hcat

theorem Shown.step {r : Reading} {op : ReadingOp} {r' : Reading} (hl : r.Legal returns op) (h : r.step op = some r')
    (hr : Shown returns r) : Shown returns r' := by
  cases op with
  | change op =>
    cases h
    exact hr.effect (change_effect r.core op) (change_limited hr.limited op)
  | begin generation request =>
    cases h
    exact hr.begin hl.1 hl.2
  | apply event =>
    obtain ⟨⟨core, outcome⟩, ha, rfl⟩ := Option.map_eq_some_iff.mp h
    exact hr.apply hcat hl ha

/-- What is stored was returned for a request of the current selection. -/
theorem shown_of_selection {ops : List ReadingOp} {r : Reading}
    (hm : Meets Reading.step (Reading.Legal returns) {} ops) (h : exec Reading.step {} ops = some r) :
    (∀ snapshot, r.core.overview = some snapshot →
      ∃ generation request, (generation, ReadRequest.overview request) ∈ r.begun ∧
        returns (.overview request) (.overview snapshot) ∧ request.selection.runIds = r.core.selection.runIds ∧
        r.core.selection.metricKey = some request.selection.metricKey ∧ request.selection.axis = r.core.axis) ∧
    (∀ snapshot, r.core.detail = some snapshot →
      ∃ generation request, (generation, ReadRequest.detail request) ∈ r.begun ∧
        returns (.detail request) (.detail snapshot) ∧ request.selection.runIds = r.core.selection.runIds ∧
        r.core.selection.metricKey = some request.selection.metricKey ∧ request.selection.axis = r.core.axis) ∧
    r.core.selection.runIds.Nodup ∧ r.core.selection.runIds.length ≤ 10 := by
  have hr : Shown returns r :=
    exec_inv Reading.step (fun _ _ _ hl hs => Shown.step hcat hl hs) hm h shown_init
  refine ⟨fun snapshot hs => ?_, fun snapshot hs => ?_, hr.limited.distinct, hr.limited.limited⟩
  · obtain ⟨generation, request, hb, hk, hret, hc⟩ := hr.overview snapshot hs
    cases request with
    | discover request => cases hk
    | overview request => exact ⟨generation, request, hb, hret, hc⟩
    | detail request => cases hk
  · obtain ⟨generation, request, hb, hk, hret, hc⟩ := hr.detail snapshot hs
    cases request with
    | discover request => cases hk
    | overview request => cases hk
    | detail request => exact ⟨generation, request, hb, hret, hc⟩

end

def emptyCurves : CurveSnapshot := ⟨⟨0, 1, by decide⟩, 2000, none, []⟩

def viewedRequest : OverviewRequest := ⟨⟨["r"], "k", .step⟩, 1000⟩

/-- An overview is shown for the run and the metric that were selected. -/
def viewedOps : List ReadingOp :=
  [.change (.toggleRun "r"), .change (.selectMetric (some "k")), .begin 1 (.overview viewedRequest),
    .apply ⟨1, .overview, .ok (.overview emptyCurves)⟩]

def returnsEmpty (request : ReadRequest) (snapshot : ReadSnapshot) : Prop :=
  request.kind = .overview ∧ snapshot = .overview emptyCurves

theorem shown_of_selection_viewed : ∃ r, exec Reading.step {} viewedOps = some r ∧
    r.core.overview = some emptyCurves ∧ r.core.selection = ⟨none, ["r"], some "k"⟩ ∧
    ∃ generation request, (generation, ReadRequest.overview request) ∈ r.begun ∧
      request.selection.runIds = ["r"] ∧ some "k" = some request.selection.metricKey ∧
      request.selection.axis = AlignmentAxis.step := by
  have hm : Meets Reading.step (Reading.Legal returnsEmpty) {} viewedOps := by
    refine ⟨trivial, fun _ h => ?_⟩
    cases h
    refine ⟨trivial, fun _ h => ?_⟩
    cases h
    refine ⟨⟨.requestOverview 1000 rfl, by simp⟩, fun _ h => ?_⟩
    cases h
    refine ⟨⟨.overview viewedRequest, by simp, rfl, fun snapshot hs => ?_⟩, fun _ _ => trivial⟩
    cases hs
    exact ⟨rfl, rfl⟩
  have hexec : ∃ r, exec Reading.step {} viewedOps = some r ∧ r.core.overview = some emptyCurves ∧
      r.core.selection = ⟨none, ["r"], some "k"⟩ ∧ r.core.axis = .step := ⟨_, rfl, rfl, rfl, rfl⟩
  obtain ⟨r, hr, ho, hs, ha⟩ := hexec
  have hshown := @shown_of_selection returnsEmpty (fun _ _ h => by cases h.2) viewedOps r hm hr
  obtain ⟨generation, request, hb, -, hruns, hmetric, haxis⟩ := hshown.1 _ ho
  exact ⟨r, hr, ho, hs, generation, request, hb, hruns.trans (by rw [hs]), (by rw [← hmetric, hs]), haxis.trans ha⟩

end Pulseon
