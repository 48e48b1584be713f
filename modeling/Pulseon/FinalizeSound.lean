import Pulseon.HistorySound

/-!
# Aggregates of finished runs

A finalizer closes admission, waits for every accepted report of the run and
rebuilds the aggregates from the table. From then on no report of the run is
waiting and none comes in: the active runs of the maps are shut, earlier
clients have ended and later ones have not begun. So the stored rows stay what
the queries on a running run would compute.
-/

namespace Pulseon

/-- No report of the run can come into the table from the client any more. -/
def World.Closed (s : World) (d : Nat) (r : RunId) : Prop :=
  (s.clients d).reporter.worker.hasExited = true ∨
    (s.clients d).reporter.Idle r ∧ s.protocol.Shut d r

def World.finishedBy (s : World) (c : Nat) (r : RunId) : Prop :=
  (c, r) ∈ s.registry.terminated ∨ ∃ i a, (s.calls i).thread = .marked c r a

/-- The stored rows of the run are those that some plan makes of the table. -/
def World.Rebuilt (s : World) (r : RunId) : Prop :=
  ∃ ties, (s.aggregates.filter fun a => a.runId == r) = rebuiltAggregates ties s.points r

/-- Every report of the run that client `c` accepted is written, and no client brings another. -/
structure Drained (s : World) (c : Nat) (r : RunId) : Prop where
  closed : ∀ d, s.Closed d r
  written : (s.clients c).reporter.Written r

structure RunDone (s : World) (r : RunId) : Prop where
  closed : ∀ d, s.Closed d r
  finished : ∃ c, s.finishedBy c r
  written : ∀ c, s.finishedBy c r → (s.clients c).reporter.Written r
  rebuilt : s.Rebuilt r

/-- How far a finalizer has come, up to its `mark_terminal`. -/
def Finalizing (s : World) (c : Nat) (r : RunId) : FinalizePc → Prop
  | .drain _ d => s.protocol.Shut c r ∧ d.Sound (s.clients c).reporter ∧ d.Covers (s.clients c).reporter r
  | .deleteAggregates _ => Drained s c r
  | .insertAggregates _ => Drained s c r ∧ (s.aggregates.filter fun a => a.runId == r) = []
  | .readClock _ | .markRun _ _ | .markTerminal _ => Drained s c r ∧ s.Rebuilt r
  | _ => True

structure RunsInv (s : World) : Prop where
  finalizing : ∀ i c r target pc, s.calls i = .finalizeRun c r target pc → Finalizing s c r pc
  finished : ∀ c r, s.finishedBy c r → ∃ st, statusIn s.runs r = some st ∧ st ≠ .running
  done : ∀ r st, statusIn s.runs r = some st → st ≠ .running → RunDone s r

/-! ## Reports of a shut run -/

section
variable {s t : World} {act : WorldAct} {c d i : Nat} {r : RunId} {l : ProtocolAct} (h : HistoryInv s)
include h

theorem HistoryInv.aside (hs : s.step act = some t)
    (hd : (s.clients d).reporter.worker.hasExited = true ∨ s.protocol.Shut d r) :
    (s.clients d).reporter.Aside r (t.clients d).reporter := by
  have hrep := h.reporters d
  rcases reporters_step hs d with e | ⟨a, hcause, hst⟩
  · rw [e]; exact Reporter.aside_refl r _
  · refine aside_of_step hst hrep.tagged ?_
    rintro k now rfl hk hrec hkr
    cases hcause with
    | @log j env run key n v _ hj hcl hact =>
      have hcaller := (hact.resolve_left fun e => by cases e.2).1
      obtain ⟨run', key', n', v', hj', -, hid⟩ := (h.sequence.caller d).calling j hcaller
      rw [hj] at hj'; cases hj'
      have hrun : run.runId = r := (hid k hk).symm.trans hkr
      rcases hd with hx | hshut
      · have hlive := hrep.ordered.live.mp hrec
        rw [hx] at hlive; cases hlive.2
      · -- the call was let in by an active run of the map, or the sender is gone
        obtain ⟨hhandle, -, hadm⟩ := (h.status.lock.threads j).logging run (by
          show (s.calls j).thread = _; rw [hj]; rfl)
        rcases h.status.lock.attached run hhandle (by rw [hadm]; nofun) with htorn | hmap
        · have hsender : (s.clients run.client).reporter.sender = false := by
            simpa [World.protocol] using htorn
          rw [hcl] at hsender
          rw [hrep.counted.closed hsender] at hk; cases hk
        · rw [hcl, hrun] at hmap
          exact hshut _ hmap hadm
    | shutdown _ hact => rcases hact with e | e | e <;> cases e

theorem HistoryInv.closed_step (hs : s.step act = some t) (hm : ProtocolMove s.protocol i l t.protocol)
    (hl : l ≠ .register d r ∧ l ≠ .reopen d r) (hc : s.Closed d r) : t.Closed d r := by
  rcases hc with hx | ⟨hidle, hshut⟩
  · exact Or.inl (exited_step hs hx)
  · exact Or.inr ⟨(h.aside hs (Or.inr hshut)).idle hidle, hshut.move hm h.status.lock hl.1 hl.2⟩

theorem HistoryInv.written_step (hs : s.step act = some t) (hc : s.Closed d r)
    (hw : (s.clients d).reporter.Written r) : (t.clients d).reporter.Written r :=
  (h.aside hs (hc.imp id And.right)).written hw

omit h in
/-- Rows that come in are not of a run that is closed everywhere. -/
theorem rebuilt_points (hs : s.step act = some t) (hc : ∀ d, s.Closed d r) (ties : Ties) :
    rebuiltAggregates ties t.points r = rebuiltAggregates ties s.points r := by
  obtain ⟨rows, hp, -, hrows⟩ := points_step hs
  rw [hp]
  refine rebuiltAggregates_append ties fun row hrow => ?_
  obtain ⟨d, report, hr, hof⟩ := hrows row hrow
  have hid : row.runId = report.runId := by rw [hof]; rfl
  rw [hid]
  rcases hc d with hx | ⟨hidle, -⟩
  · -- a worker that has ended has nothing in hand
    generalize (s.clients d).reporter.worker = w at hx hr
    cases w <;> cases hx
    cases hr
  · exact hidle report (List.mem_append_left _ hr)

/-- While a call on a run is under way on a client, the other clients have ended or not begun. -/
theorem HistoryInv.others_closed {j : Nat} (hj : (s.calls j).started = some c) (hd : d ≠ c) : s.Closed d r := by
  by_cases hlt : d < c
  · exact Or.inl (h.sequence.ended c (Or.inl ⟨j, uses_of_started hj⟩) d hlt).exited
  · have hun : ¬ s.used d := fun hu => (h.sequence.ended d hu c (by omega)).started j hj
    have hnone : (s.clients d).reporter.accepted = [] := by
      by_contra hne
      obtain ⟨run, hrun, hc⟩ := h.sequence.handled d hne
      exact hun (Or.inr (Or.inr ⟨run, hrun, hc⟩))
    have horder := (h.reporters d).ordered.order
    rw [hnone] at horder
    obtain ⟨-, hrest⟩ := List.append_eq_nil_iff.mp horder.symm
    obtain ⟨hhand, hrest⟩ := List.append_eq_nil_iff.mp hrest
    obtain ⟨hchan, -⟩ := List.append_eq_nil_iff.mp hrest
    refine Or.inr ⟨?_, fun a ha => absurd (Or.inr (Or.inl ⟨r, a, ha⟩)) hun⟩
    intro report hr
    rw [hhand, hchan] at hr; cases hr

end

/-! ## Aggregates -/

def Call.rebuilds : Call → Option RunId
  | .finalizeRun _ r _ (.deleteAggregates _) | .finalizeRun _ r _ (.insertAggregates _) => some r
  | _ => none

theorem thread_of_rebuilds {k : Call} {r : RunId} (h : k.rebuilds = some r) :
    ∃ c a, k.thread = .using c r a := by
  cases k with
  | finalizeRun c r' target pc => cases pc <;> cases h <;> exact ⟨_, _, rfl⟩
  | _ => cases h

section
variable {s t : World} {i c : Nat} {r q : RunId} {act : WorldAct} {env : Env}

theorem createProject_aggregates {projectId : ProjectId} {name : String} {pc : CreateProjectPc}
    (h : s.createProjectStep i c projectId name env pc = some t) : t.aggregates = s.aggregates := by
  cases pc <;> simp only [World.createProjectStep] at h <;> repeat' split at h
  all_goals first | (cases h; rfl) | cases h

theorem flushRunData_aggregates {pc : FlushPc} (h : s.flushRunDataStep i c r env pc = some t) :
    t.aggregates = s.aggregates := by
  cases pc <;> simp only [World.flushRunDataStep] at h <;> repeat' split at h
  all_goals first | (cases h; rfl) | cases h

theorem createRun_aggregates {projectId : ProjectId} {name : String} {pc : CreatePc}
    (h : s.createRunStep i c projectId name r env pc = some t) : t.aggregates = s.aggregates := by
  cases pc <;> simp only [World.createRunStep] at h <;> repeat' split at h
  all_goals first | (cases h; rfl) | cases h

theorem resumeRun_aggregates {pc : ResumePc} (h : s.resumeRunStep i c r env pc = some t) :
    t.aggregates = s.aggregates := by
  cases pc <;> simp only [World.resumeRunStep] at h <;> repeat' split at h
  all_goals first | (cases h; rfl) | cases h

theorem finalizeRun_aggregates {target : TerminalStatus} {pc : FinalizePc}
    (h : s.finalizeRunStep i c r target env pc = some t)
    (hq : (Call.finalizeRun c r target pc).rebuilds ≠ some q) :
    (t.aggregates.filter fun a => a.runId == q) = s.aggregates.filter fun a => a.runId == q := by
  cases pc with
  | drain a d =>
    simp only [World.finalizeRunStep] at h
    split at h
    · cases h; rfl
    · cases h; rfl
    · obtain ⟨d', -, rfl⟩ := Option.map_eq_some_iff.mp h; rfl
  | deleteAggregates a =>
    have hne : r ≠ q := fun e => hq (congrArg some e)
    simp only [World.finalizeRunStep] at h
    repeat' split at h
    · cases h
    · cases h; rfl
    · cases h
      show ((s.aggregates.filter fun row => row.runId != r).filter fun a => a.runId == q) = _
      rw [List.filter_filter]
      refine List.filter_congr fun row _ => ?_
      by_cases hr : row.runId = q
      · simp [hr, hne.symm]
      · simp [hr]
  | insertAggregates a =>
    have hne : r ≠ q := fun e => hq (congrArg some e)
    simp only [World.finalizeRunStep] at h
    split at h
    · cases h; rfl
    · cases h
      show ((s.aggregates ++ rebuiltAggregates env.ties s.points r).filter fun a => a.runId == q) = _
      rw [List.filter_append]
      refine (congrArg _ (List.filter_eq_nil_iff.mpr fun row hrow => ?_)).trans (List.append_nil _)
      rw [rebuiltAggregates_runId env.ties hrow]
      simpa using hne
  | _ =>
    simp only [World.finalizeRunStep] at h
    repeat' split at h
    all_goals first | (cases h; rfl) | cases h

/-- The aggregates of a run change by the finalizer that rebuilds them only. -/
theorem aggregates_step (hs : s.step act = some t) (hq : ∀ i env, act = .go i env → (s.calls i).rebuilds ≠ some q) :
    (t.aggregates.filter fun a => a.runId == q) = s.aggregates.filter fun a => a.runId == q := by
  cases act with
  | start i request =>
    simp only [World.step] at hs
    split at hs
    · cases hs
    · cases hs; rfl
  | go i env =>
    have hne := hq i env rfl
    simp only [World.step] at hs
    generalize s.calls i = k at hs hne
    cases k with
    | createProject => rw [createProject_aggregates hs]
    | createRun => rw [createRun_aggregates hs]
    | resumeRun => rw [resumeRun_aggregates hs]
    | finalizeRun => exact finalizeRun_aggregates hs hne
    | flushRunData => rw [flushRunData_aggregates hs]
    | logMetricAtStep run key n v pc =>
      rcases logMetricAtStep_cases hs with ⟨-, -, -, ha⟩ | ⟨-, act, hm, -⟩
      · rw [ha]
      · rw [hm.aggregates]
    | shutdown c pc => rw [(shutdown_moves hs).aggregates]
    | idle => cases hs
    | returned => cases hs
  | runHandle c r => cases hs; rfl
  | work c act =>
    simp only [World.step, World.workStep] at hs
    split at hs
    · cases hs
    · obtain ⟨q', -, rfl⟩ := Option.map_eq_some_iff.mp hs; rfl

end

/-! ## What a step on another run keeps -/

section
variable {s t : World} {act : WorldAct} {c i : Nat} {r : RunId} {l : ProtocolAct} (h : HistoryInv s)
variable (hs : s.step act = some t) (hm : ProtocolMove s.protocol i l t.protocol)
variable (hl : ∀ d, l ≠ .register d r ∧ l ≠ .reopen d r)
variable (hagg : (t.aggregates.filter fun a => a.runId == r) = s.aggregates.filter fun a => a.runId == r)
include h hs

omit h in
theorem drain_keep {d : Drain} (hd : d.Sound (s.clients c).reporter) :
    d.Sound (t.clients c).reporter := by
  rcases reporters_step hs c with e | ⟨a, -, e⟩
  · rw [e]; exact hd
  · exact hd.mono (reporter_step_grows e).1 (reporter_step_grows e).2

include hm hl

theorem HistoryInv.drained_keep (hd : Drained s c r) : Drained t c r :=
  ⟨fun d => h.closed_step hs hm (hl d) (hd.closed d), h.written_step hs (hd.closed c) hd.written⟩

include hagg

omit h hm hl in
theorem rebuilt_keep (hc : ∀ d, s.Closed d r) (hr : s.Rebuilt r) : t.Rebuilt r := by
  obtain ⟨ties, hr⟩ := hr
  exact ⟨ties, by rw [hagg, rebuilt_points hs hc ties]; exact hr⟩

theorem HistoryInv.finalizing_keep {pc : FinalizePc} (hf : Finalizing s c r pc) : Finalizing t c r pc := by
  cases pc with
  | drain a d =>
    obtain ⟨hshut, hsound, hcov⟩ := hf
    exact ⟨hshut.move hm h.status.lock (hl c).1 (hl c).2, drain_keep hs hsound,
      hcov.aside (h.aside hs (Or.inr hshut))⟩
  | deleteAggregates a => exact h.drained_keep hs hm hl hf
  | insertAggregates a => exact ⟨h.drained_keep hs hm hl hf.1, hagg.trans hf.2⟩
  | readClock a | markRun a finishedAt | markTerminal a =>
    exact ⟨h.drained_keep hs hm hl hf.1, rebuilt_keep hs hagg hf.1.closed hf.2⟩
  | _ => trivial

omit h hs hagg hl in
theorem finishedBy_back {d : Nat} (hf : t.finishedBy d r) : s.finishedBy d r ∨ l = .mark d r := by
  rcases hf with hterm | ⟨j, a, hj⟩
  · exact Or.inl ((terminated_move hm hterm).imp id fun ⟨a, hi⟩ => ⟨i, a, hi⟩)
  · exact (marked_move hm hj).imp (fun hj => Or.inr ⟨j, a, hj⟩) id

theorem HistoryInv.done_keep (hk : ∀ d, l ≠ .mark d r) (hd : RunDone s r) : RunDone t r := by
  refine ⟨fun d => h.closed_step hs hm (hl d) (hd.closed d), ?_,
    fun d hf => ?_, rebuilt_keep hs hagg hd.closed hd.rebuilt⟩
  · obtain ⟨d, hf⟩ := hd.finished
    refine ⟨d, ?_⟩
    rcases hf with hterm | ⟨j, a, hj⟩
    · exact Or.inl (terminated_kept hm hterm)
    · exact (marked_kept hm hj).elim (fun e => Or.inr ⟨j, a, e⟩) Or.inl
  · exact h.written_step hs (hd.closed d) (hd.written d ((finishedBy_back hm hf).resolve_right (hk d)))

end

/-! ## The finalizer's own steps -/

section
variable {s t : World} {i c : Nat} {r : RunId} {env : Env}

theorem Drained.congr (hr : ∀ d, (t.clients d).reporter = (s.clients d).reporter) (hg : t.registry = s.registry)
    (hd : Drained s c r) : Drained t c r := by
  refine ⟨fun d => ?_, by rw [hr]; exact hd.written⟩
  have hc := hd.closed d
  unfold World.Closed Protocol.Shut World.protocol at hc ⊢
  rw [hr, hg]; exact hc

theorem World.Rebuilt.congr (ha : t.aggregates = s.aggregates) (hp : t.points = s.points) (hd : s.Rebuilt r) :
    t.Rebuilt r := by
  obtain ⟨ties, hd⟩ := hd
  exact ⟨ties, by rw [ha, hp]; exact hd⟩

theorem HistoryInv.finalizeRun_finalizing {target : TerminalStatus} {pc pc' : FinalizePc} (h : HistoryInv s)
    (hk : s.calls i = .finalizeRun c r target pc) (hf : Finalizing s c r pc)
    (hs : s.finalizeRunStep i c r target env pc = some t) (ht : t.calls i = .finalizeRun c r target pc') :
    Finalizing t c r pc' := by
  have hkeep := finalizeRun_keeps hs
  have hself : ∀ {s' : World} {k : Call}, (s'.setCall i k).calls i = k := Function.update_self ..
  have hret : ∀ {s' : World} {result : Except EngineError (Option Run)},
      (s'.returns i result).calls i ≠ .finalizeRun c r target pc' := by
    intro s' result e
    rw [show (s'.returns i result).calls i = .returned result from hself] at e; cases e
  cases pc with
  | closeAdmission a =>
    simp only [World.finalizeRunStep] at hs
    split at hs
    · cases hs
    · cases hs
      rw [hself] at ht; cases ht
      refine ⟨fun b hb => ?_, trivial, trivial⟩
      -- the active run in the map is the finalizer's
      have hba : b = a := (h.status.threads i).own c r a (by
        show (s.calls i).thread.holds = _; rw [hk]; rfl) b hb
      subst hba
      show ((s.registry.setAdmission b .closing).active b).admission ≠ .opened
      rw [Registry.setAdmission_active, if_pos rfl]
      simp
  | drain a d =>
    obtain ⟨hshut, hsound, hcov⟩ := hf
    have hord := (h.reporters c).ordered
    simp only [World.finalizeRunStep] at hs
    split at hs
    · cases hs
      rw [hself] at ht; cases ht
      have hw := hcov.written hsound hord
      refine ⟨fun d => ?_, hw⟩
      by_cases hd : d = c
      · subst hd; exact Or.inr ⟨hw.idle, hshut⟩
      · exact h.others_closed (show (s.calls i).started = some c by rw [hk]; rfl) hd
    · cases hs
      rw [hself] at ht; cases ht
      trivial
    · obtain ⟨d', hd', rfl⟩ := Option.map_eq_some_iff.mp hs
      rw [hself] at ht; cases ht
      exact ⟨hshut, hsound.step hord hd', hcov.step hord hd'⟩
  | deleteAggregates a =>
    simp only [World.finalizeRunStep] at hs
    repeat' split at hs
    · cases hs
    · cases hs; rw [hself] at ht; cases ht; trivial
    · cases hs
      rw [hself] at ht; cases ht
      refine ⟨hf.congr hkeep.reporter rfl, List.filter_eq_nil_iff.mpr fun row hrow => ?_⟩
      simpa using (List.mem_filter.mp hrow).2
  | insertAggregates a =>
    obtain ⟨hdrained, hnone⟩ := hf
    simp only [World.finalizeRunStep] at hs
    split at hs
    · cases hs; rw [hself] at ht; cases ht; trivial
    · cases hs
      rw [hself] at ht; cases ht
      refine ⟨hdrained.congr hkeep.reporter rfl, env.ties, ?_⟩
      show ((s.aggregates ++ rebuiltAggregates env.ties s.points r).filter fun a => a.runId == r) = _
      rw [List.filter_append, hnone, List.nil_append]
      refine List.filter_eq_self.mpr fun a ha => ?_
      rw [rebuiltAggregates_runId env.ties ha]
      exact beq_self_eq_true r
  | readClock a =>
    simp only [World.finalizeRunStep] at hs
    split at hs
    · cases hs; exact absurd ht hret
    · cases hs
      rw [hself] at ht; cases ht
      exact ⟨hf.1.congr hkeep.reporter rfl, hf.2.congr rfl rfl⟩
  | markRun a finishedAt =>
    simp only [World.finalizeRunStep] at hs
    repeat' split at hs
    · cases hs
    · cases hs; exact absurd ht hret
    · cases hs
      rw [hself] at ht; cases ht
      exact ⟨hf.1.congr hkeep.reporter rfl, hf.2.congr rfl rfl⟩
    · cases hs; rw [hself] at ht; cases ht; trivial
  | _ =>
    simp only [World.finalizeRunStep] at hs
    repeat' split at hs
    all_goals first
      | (cases hs; exact absurd ht hret)
      | (cases hs; rw [hself] at ht; cases ht; trivial)
      | cases hs

end

/-! ## Every step -/

theorem operates_of_finalizeRun {k : Call} {c : Nat} {r : RunId} {target : TerminalStatus} {pc : FinalizePc}
    (h : k = .finalizeRun c r target pc) : k.operates = some r := by rw [h]; rfl

theorem operates_of_rebuilds {k : Call} {r : RunId} (h : k.rebuilds = some r) : k.operates = some r := by
  obtain ⟨c, a, hk⟩ := thread_of_rebuilds h
  exact operates_of_thread (by rw [hk]; rfl)

theorem finalizeRun_of_marked {k : Call} {c a : Nat} {r : RunId} (h : k.thread = .marked c r a) :
    ∃ target, k = .finalizeRun c r target (.markTerminal a) := by
  cases k.threaded with
  | idle e | shutdown e => rw [e] at h; cases h
  | create _ _ _ _ pc => cases pc <;> cases h
  | finalize _ _ target pc => cases pc <;> cases h; exact ⟨target, rfl⟩
  | log => cases h

section
variable {s t : World} {act : WorldAct} {i j : Nat} {r : RunId} {l : ProtocolAct} {env : Env}

theorem HistoryInv.elsewhere (h : HistoryInv s) (hc : OneCallPerRun s act)
    (hm : ProtocolMove s.protocol i l t.protocol)
    (ho : l.Of s i act) (hj : (s.calls j).operates = some r) (hgo : ∀ env, act ≠ .go j env) :
    l.operates ≠ some r := by
  intro hl
  rcases operates_of_move hm ho hl with hi | hact
  · have hij := h.calls i j r hi hj
    subst hij
    cases ho with
    | go => exact hgo _ rfl
    | @begins request c r' hreq => exact hc r (by cases request <;> cases hreq <;> cases hl <;> rfl) i hj
    | start | handle | work => cases hl
  · exact hc r hact j hj

theorem finalizing_go {c : Nat} {target : TerminalStatus} {pc : FinalizePc} (h : HistoryInv s) (hr : RunsInv s)
    (hs : s.step (.go i env) = some t) (ht : t.calls i = .finalizeRun c r target pc) : Finalizing t c r pc := by
  obtain ⟨k', hcalls, hcont⟩ := calls_go hs
  have hfin := hcont.finalizes (c, r, target) (by rw [← Function.update_self i k' s.calls, ← hcalls, ht]; rfl)
  simp only [World.step] at hs
  cases hk : s.calls i with
  | finalizeRun c' r' target' pc' =>
    rw [hk] at hs hfin
    cases hfin
    exact h.finalizeRun_finalizing hk (hr.finalizing i _ _ _ _ hk) hs ht
  | _ => rw [hk] at hfin; cases hfin

theorem RunsInv.finalizing_step (hr : RunsInv s) (h : HistoryInv s) (hc : Sequential s act)
    (hs : s.step act = some t) :
    ∀ j c r target pc, t.calls j = .finalizeRun c r target pc → Finalizing t c r pc := by
  obtain ⟨i, l, hm, ho⟩ := world_refines hs
  intro j c r target pc hj
  -- a call that does not move keeps what it has
  have hkeep : (∀ env, act ≠ .go j env) → s.calls j = .finalizeRun c r target pc → Finalizing t c r pc := by
    intro hgo e
    have hop := operates_of_finalizeRun e
    have hl := h.elsewhere hc.runs hm ho hop hgo
    refine h.finalizing_keep hs hm (fun d => ⟨?_, ?_⟩) (aggregates_step hs ?_) (hr.finalizing j c r target pc e)
    · rintro rfl; exact hl rfl
    · rintro rfl; exact hl rfl
    · rintro i' env rfl hreb
      have hij := h.calls i' j r (operates_of_rebuilds hreb) hop
      subst hij
      exact hgo env rfl
  cases act with
  | start i' request =>
    have hst := hs
    simp only [World.step] at hst
    split at hst
    · cases hst
    · cases hst
      by_cases hji : j = i'
      · subst hji
        rw [show (s.setCall j request.call).calls j = request.call from Function.update_self ..] at hj
        cases request <;> cases hj <;> trivial
      · rw [show (s.setCall i' request.call).calls j = s.calls j from Function.update_of_ne hji ..] at hj
        exact hkeep (by simp) hj
  | go i' env =>
    by_cases hji : j = i'
    · subst hji; exact finalizing_go h hr hs hj
    · obtain ⟨k', hcalls, -⟩ := calls_go hs
      rw [hcalls, Function.update_of_ne hji] at hj
      refine hkeep ?_ hj
      rintro env' e
      cases e; exact hji rfl
  | runHandle d r' =>
    have hcalls : t.calls = s.calls := by cases hs; rfl
    exact hkeep (by simp) (hcalls ▸ hj)
  | work d act => exact hkeep (by simp) (work_calls hs ▸ hj)

theorem RunsInv.step (hr : RunsInv s) (h : HistoryInv s) (hc : Sequential s act) (hs : s.step act = some t) :
    RunsInv t := by
  have hfin := hr.finalizing_step h hc hs
  obtain ⟨i, l, hm, ho⟩ := world_refines hs
  have hone := h.onePerRun hc hm ho
  refine ⟨hfin, fun c r hf => ?_, fun r st hst hne => ?_⟩
  · rcases finishedBy_back hm hf with hf | rfl
    · obtain ⟨st, hst, hne⟩ := hr.finished c r hf
      exact ⟨st, h.status.terminal_kept hm hst hne, hne⟩
    · obtain ⟨a, -, -, hst⟩ := h.status.marks hm
      exact hst
  · by_cases hk : ∃ c, l = .mark c r
    · obtain ⟨c, rfl⟩ := hk
      obtain ⟨a, husing, hmarked, -⟩ := h.status.marks hm
      obtain ⟨target, ht⟩ := finalizeRun_of_marked hmarked
      obtain ⟨hdrained, hrebuilt⟩ : Drained t c r ∧ t.Rebuilt r := hfin i c r target _ ht
      refine ⟨hdrained.closed, ⟨c, Or.inr ⟨i, a, hmarked⟩⟩, fun d hf => ?_, hrebuilt⟩
      rcases finishedBy_back hm hf with hf | e
      · -- the run was running so far
        obtain ⟨st', hst', hne'⟩ := hr.finished d r hf
        have hrun := (h.status.threads i).running c r a husing
        rw [show s.protocol.status r = statusIn s.runs r from rfl, hst'] at hrun
        cases hrun; exact absurd rfl hne'
      · cases e; exact hdrained.written
    · have hk : ∀ c, l ≠ .mark c r := fun c e => hk ⟨c, e⟩
      have hold := h.status.terminal_back hm hk hst hne
      have hquiet := h.status.terminal_quiet hone hm hold hne
      refine h.done_keep hs hm (fun d => ⟨(hquiet d).1, (hquiet d).2.1⟩) (aggregates_step hs ?_) hk
        (hr.done r st hold hne)
      rintro i' env rfl hreb
      obtain ⟨c, a, hi⟩ := thread_of_rebuilds hreb
      have hrun := (h.status.threads i').running c r a hi
      rw [hold] at hrun
      cases hrun; exact hne rfl

end

theorem runsInv_init (projects : List Project) (capacity : Nat → Nat) :
    RunsInv (World.init projects [] capacity) where
  finalizing _ _ _ _ _ e := by cases e
  finished _ _ hf := by
    rcases hf with hterm | ⟨i, a, hi⟩
    · cases hterm
    · cases hi
  done _ _ hst := by cases hst

/-! ## What the queries return -/

section
variable {points : List MetricPointRow} {aggregates : List MetricAggregate} {r : RunId} {k : MetricKey}

theorem summariesOf_congr (ties : Ties) {runs running : List Run}
    (h : (runs.filter fun run => run.runId == r) = running.filter fun run => run.runId == r) :
    summariesOf ties runs points aggregates k r = summariesOf ties running points aggregates k r := by
  unfold summariesOf
  rw [filter_runId, filter_runId, filter_runId, filter_runId, h]

/-- The stored rows of a run: none, or the one that has its status. -/
theorem filter_runId_cases {runs : List Run} (hn : (runs.map Run.runId).Nodup) (r : RunId) :
    (runs.filter fun run => run.runId == r) = [] ∨
      ∃ run, (runs.filter fun run => run.runId == r) = [run] ∧ statusIn runs r = some run.status := by
  by_cases h : ∃ run ∈ runs, run.runId = r
  · obtain ⟨run, hrun, rfl⟩ := h
    refine Or.inr ⟨run, filter_key_of_mem hn hrun, ?_⟩
    unfold statusIn
    rw [(find_key_iff hn).mpr ⟨hrun, rfl⟩]; rfl
  · left
    rw [List.filter_eq_nil_iff]
    intro run hrun e
    exact h ⟨run, hrun, eq_of_beq e⟩

end

/-- The summaries as the query returns them for runs that are all running. -/
def runningSummaries (ties : Ties) (s : World) (runIds : List RunId) (metricKey : MetricKey) :
    List MetricAggregate :=
  queryMetricSummaries ties (s.runs.map fun run => { run with status := .running }) s.points s.aggregates runIds
    metricKey

theorem summaries_running {s : World} (h : HistoryInv s) (hr : RunsInv s) (read read' : Ties) (runIds : List RunId)
    (k : MetricKey) : List.Forall₂ MetricAggregate.Same
      (queryMetricSummaries read s.runs s.points s.aggregates runIds k) (runningSummaries read' s runIds k) := by
  unfold runningSummaries queryMetricSummaries
  refine List.rel_flatMap (R := Eq) (List.forall₂_refl runIds) ?_
  rintro r - rfl
  have hmap : ((s.runs.map fun run => { run with status := .running }).filter fun run => run.runId == r) =
      (s.runs.filter fun run => run.runId == r).map fun run => { run with status := .running } := by
    rw [List.filter_map]; rfl
  -- without a terminal row both queries read the table
  have hlive : ((s.runs.filter fun run => run.runId == r).map fun run => { run with status := .running }) =
      s.runs.filter (fun run => run.runId == r) → List.Forall₂ MetricAggregate.Same
        (summariesOf read s.runs s.points s.aggregates k r)
        (summariesOf read' (s.runs.map fun run => { run with status := .running }) s.points s.aggregates k r) := by
    intro hsame
    rw [summariesOf_congr read' (hmap.trans hsame)]
    exact summariesOf_same read read' s.runs k
  rcases filter_runId_cases h.stored r with hnone | ⟨run, hone, hst⟩
  · exact hlive (by rw [hnone]; rfl)
  · by_cases hrun : run.status = .running
    · exact hlive (by rw [hone, List.map_singleton, ← hrun])
    · obtain ⟨ties, hrebuilt⟩ := (hr.done r _ hst hrun).rebuilt
      exact summariesOf_terminal hrebuilt h.encoded hone hrun (by rw [hmap, hone]; rfl) read read'

theorem invariants_of_run {projects : List Project} {capacity : Nat → Nat} {acts : List WorldAct} {s : World}
    (h : exec World.step (World.init projects [] capacity) acts = some s)
    (hm : Meets World.step Sequential (World.init projects [] capacity) acts) : HistoryInv s ∧ RunsInv s := by
  refine exec_inv World.step (I := fun s => HistoryInv s ∧ RunsInv s) ?_ hm h
    ⟨historyInv_init projects capacity, runsInv_init projects capacity⟩
  rintro s act t hc hs ⟨h, hr⟩
  exact ⟨h.step hc hs, hr.step h hc hs⟩

/-- Once a run is stored as finished or failed, every report that its finalizing
client accepted has a row, its stored aggregates are those of its effective
series, and the queries read from them what they would compute from the table,
but for which of equal values each plan takes. -/
theorem terminal_aggregates_exact {projects : List Project} {capacity : Nat → Nat}
    {acts : List WorldAct} {s : World} (h : exec World.step (World.init projects [] capacity) acts = some s)
    (hm : Meets World.step Sequential (World.init projects [] capacity) acts) :
    (∀ r st, statusIn s.runs r = some st → st ≠ .running →
      (∃ c, s.finishedBy c r) ∧
      (∀ c, s.finishedBy c r → ∃ rows, rows.Sublist s.points ∧
        List.Forall₂ RowOf rows ((s.clients c).reporter.accepted.filter fun report => report.runId == r)) ∧
      (∀ k, effectiveCte s.points r k none none = [] ∧
          (s.aggregates.filter fun a => a.runId == r && a.metricKey == k) = [] ∨
        ∃ a, (s.aggregates.filter fun a => a.runId == r && a.metricKey == k) = [a] ∧
          effectiveCte s.points r k none none ≠ [] ∧ a.Summarises (effectiveCte s.points r k none none)) ∧
      ∀ ties ties', List.Forall₂ MetricAggregate.Same (listMetrics ties s.points s.aggregates r st)
        (listMetrics ties' s.points s.aggregates r .running)) ∧
    ∀ ties ties' runIds k, List.Forall₂ MetricAggregate.Same
      (queryMetricSummaries ties s.runs s.points s.aggregates runIds k) (runningSummaries ties' s runIds k) := by
  obtain ⟨hinv, hruns⟩ := invariants_of_run h hm
  refine ⟨fun r st hst hne => ?_, summaries_running hinv hruns⟩
  obtain ⟨-, hfin, hwritten, ties, hrebuilt⟩ := hruns.done r st hst hne
  refine ⟨hfin, fun c hc => ?_, fun k => ?_, listMetrics_terminal hrebuilt hne⟩
  · obtain ⟨rows, hsub, hrows⟩ := (hwritten c hc).rows (hinv.reporters c).ordered (hinv.reporters c).stamped
    exact ⟨rows, hsub.trans (hinv.written c), hrows⟩
  · rw [stored_of_rebuilt hrebuilt hinv.encoded]
    rcases aggregateOf_cases ties r k (effectiveCte s.points r k none none) with ⟨hnil, hagg⟩
      | ⟨a, hagg, -, -, hsum⟩
    · left; rw [hagg]; exact ⟨hnil, rfl⟩
    · right
      refine ⟨a, by rw [hagg]; rfl, ?_, hsum⟩
      intro hnil
      rw [hnil, aggregateOf_nil] at hagg; cases hagg

/-- Only client 0 is used, by one thread, on stored runs, and no append fails. -/
def OneThread (s : World) : WorldAct → Prop
  | .start i request => i = 0 ∧ (s.calls 0).operates = none ∧ ∀ c ∈ request.call.uses, c = 0
  | .runHandle c r => c = 0 ∧ statusIn s.runs r ≠ none
  | .work _ (.writeFail _ _ _) => False
  | .work _ _ => True
  | .go i _ => i = 0

instance (s : World) : ∀ act, Decidable (OneThread s act)
  | .start _ _ => inferInstanceAs (Decidable (_ ∧ _ ∧ _))
  | .runHandle _ _ => inferInstanceAs (Decidable (_ ∧ _))
  | .work _ (.writeFail _ _ _) => isFalse id
  | .work _ (.readClock _) | .work _ .go | .work _ .timeout | .work _ (.write _) => isTrue trivial
  | .go _ _ => inferInstanceAs (Decidable (_ = 0))

theorem meets_oneThread {projects : List Project} {capacity : Nat → Nat} {acts : List WorldAct}
    (hm : Meets World.step OneThread (World.init projects [] capacity) acts) :
    Meets World.step Sequential (World.init projects [] capacity) acts := by
  refine meets_of_inv World.step (I := fun s => ∀ i, i ≠ 0 → s.calls i = .idle) ?_ ?_ hm fun _ _ => rfl
  · intro s act t hown hs hi
    refine calls_idle hs (fun i e => ?_) hi
    cases act with
    | start j request => cases e; exact hown.1
    | go j env => cases e; exact hown
    | runHandle | work => cases e
  · intro s act hi hown
    refine ⟨fun c hc d hd => ?_, fun r hr j hj => ?_, ?_, ?_⟩
    · have hzero : c = 0 := by
        cases act with
        | start i request => exact hown.2.2 c hc
        | runHandle d r => cases hc; exact hown.1
        | go | work => cases hc
      omega
    · cases act with
      | start i request =>
        by_cases hj0 : j = 0
        · rw [hj0, hown.2.1] at hj; cases hj
        · rw [hi j hj0] at hj; cases hj
      | go | work | runHandle => cases hr
    · cases act with
      | runHandle d r => exact hown.2
      | start | go | work => trivial
    · cases act with
      | work d act => cases act <;> trivial
      | start | go | runHandle => trivial

/-- A run is logged to with both zeros and finished. -/
def loggedRun : List WorldAct := List.flatten
  [createActs, [.start 0 (.logMetricAtStep handleR "k" 0 ⟨0⟩)], List.replicate 7 (.go 0 {}),
    [.start 0 (.logMetricAtStep handleR "k" 1 ⟨0x8000000000000000⟩)], List.replicate 7 (.go 0 {}),
    [.work 0 (.readClock 4), .work 0 .go, .work 0 .go, .work 0 .go, .work 0 .timeout, .work 0 (.write 5)],
    List.replicate 4 (.work 0 .go), [.start 0 (.finishRun 0 "r")], List.replicate 19 (.go 0 {})]

theorem terminal_aggregates_exact_run : ∃ s,
    exec World.step (World.init [⟨"p", "p", 0⟩] [] fun _ => 2) loggedRun = some s ∧
      statusIn s.runs "r" = some .finished ∧ s.points.length = 2 ∧
      ∀ ties ties', List.Forall₂ MetricAggregate.Same (listMetrics ties s.points s.aggregates "r" .finished)
        (listMetrics ties' s.points s.aggregates "r" .running) := by
  have hrun : ∃ s, exec World.step (World.init [⟨"p", "p", 0⟩] [] fun _ => 2) loggedRun = some s ∧
      statusIn s.runs "r" = some .finished ∧ s.points.length = 2 := ⟨_, rfl, rfl, rfl⟩
  obtain ⟨s, h, hst, hp⟩ := hrun
  have hall := terminal_aggregates_exact h (meets_oneThread (by decide))
  exact ⟨s, h, hst, hp, (hall.1 "r" .finished hst (by decide)).2.2.2⟩

end Pulseon
