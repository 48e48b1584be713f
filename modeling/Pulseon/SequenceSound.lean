import Pulseon.StatusSound
import Pulseon.RunReports

/-!
# Clients one after another

A client is used once the clients before it are shut down and none of their
calls is under way, log calls apart. Then the worker of an earlier client has
ended, and a later client has no handle and no active run yet.
-/

namespace Pulseon

/-! ## Callers of the reporters -/

theorem call_step {q q' : Reporter} {act : ReporterAct} (hs : q.step act = some q')
    (hr : ∀ r k n v, act ≠ .report r k n v) (hc : ∀ now, act ≠ .call now) :
    q'.call = q.call ∧ q'.accepted = q.accepted := by
  cases act with
  | report r k n v => exact absurd rfl (hr r k n v)
  | call now => exact absurd rfl (hc now)
  | work act =>
    obtain ⟨ha, -, hcall, -⟩ := workerMove_frame (workerMove_of_step (s := q) hs)
    exact ⟨hcall, ha⟩
  | takeSender =>
    simp only [Reporter.step] at hs
    split at hs
    · cases hs
    · cases hs; exact ⟨rfl, rfl⟩
  | takeWorker | setWriterClosed => cases hs; exact ⟨rfl, rfl⟩

theorem callStep_runId {q : Reporter} {k k' : ReportCall} {now : Int}
    (h : (q.callStep k now).call = some k') : k'.runId = k.runId := by
  unfold Reporter.callStep at h
  split at h <;> (try split at h) <;> (try split at h) <;> cases h <;> rfl

/-- A report under way is that of the log call inside `report_metric`. -/
structure CallerInv (s : World) (c : Nat) : Prop where
  idle : (s.clients c).caller = none → (s.clients c).reporter.call = none
  calling : ∀ j, (s.clients c).caller = some j → ∃ run key n v,
    s.calls j = .logMetricAtStep run key n v .report ∧ run.client = c ∧
      ∀ k, (s.clients c).reporter.call = some k → k.runId = run.runId

section
variable {s t : World} {c : Nat} {act : WorldAct}

theorem CallerInv.keep (h : CallerInv s c) (hc : (t.clients c).caller = (s.clients c).caller)
    (hr : (t.clients c).reporter.call = (s.clients c).reporter.call)
    (hcalls : ∀ j, (s.clients c).caller = some j → t.calls j = s.calls j) : CallerInv t c := by
  refine ⟨fun e => ?_, fun j e => ?_⟩
  · rw [hr]; exact h.idle (hc ▸ e)
  · rw [hc] at e
    rw [hcalls j e, hr]; exact h.calling j e

/-- Either the client's own log call reports, or its report stays where it is. -/
theorem report_step (hs : s.step act = some t) (c : Nat) :
    (∃ i env run key n v a, s.calls i = .logMetricAtStep run key n v .report ∧ run.client = c ∧
      LogMoves s i run a t ∧
      ((s.clients c).caller = none ∧ a = .report run.runId key n v ∨
        (s.clients c).caller = some i ∧ a = .call env)) ∨
      (t.clients c).caller = (s.clients c).caller ∧ (t.clients c).reporter.call = (s.clients c).reporter.call ∧
        ∀ j run key n v, s.calls j = .logMetricAtStep run key n v .report → run.client = c →
          t.calls j = s.calls j := by
  by_cases hown : ∃ i env run key n v, act = .go i env ∧ s.calls i = .logMetricAtStep run key n v .report ∧
      run.client = c
  · obtain ⟨i, env, run, key, n, v, rfl, hi, rfl⟩ := hown
    simp only [World.step, hi, World.callStep] at hs
    rcases logMetricAtStep_cases hs with ⟨e, -⟩ | ⟨-, a, hm, ha⟩
    · cases e
    · exact Or.inl ⟨i, env.now, run, key, n, v, a, hi, rfl, hm, ha⟩
  · have hclient : (t.clients c).caller = (s.clients c).caller ∧
        (t.clients c).reporter.call = (s.clients c).reporter.call := by
      cases client_move hs c with
      | keeps hr hc => exact ⟨hc, by rw [hr]⟩
      | log hi hc => exact absurd ⟨_, _, _, _, _, _, rfl, hi, hc⟩ hown
      | shutdown _ hm =>
        refine ⟨hm.caller, ?_⟩
        rcases hm.reporter with e | ⟨a, ha, hst⟩
        · rw [e]
        · rcases ha with rfl | rfl | rfl <;> exact (call_step hst (by simp) (by simp)).1
      | work hr hc => exact ⟨hc, (call_step hr (by simp) (by simp)).1⟩
    refine Or.inr ⟨hclient.1, hclient.2, fun j run key n v hj hc => ?_⟩
    rcases calls_step hs j with e | ⟨request, -, hb, -⟩ | ⟨env, rfl, -⟩
    · exact e
    · rw [hj] at hb; cases hb
    · exact absurd ⟨j, env, run, key, n, v, rfl, hj, hc⟩ hown

theorem CallerInv.step (h : CallerInv s c) (hs : s.step act = some t) : CallerInv t c := by
  rcases report_step hs c with ⟨i, now, run, key, n, v, a, hi, rfl, hm, hact⟩ | ⟨hc, hr, hcalls⟩
  · -- the report under way is of the run of the call
    have hrun : ∀ k, (t.clients run.client).reporter.call = some k → k.runId = run.runId := by
      intro k hcall
      have hr := hm.reporter
      rcases hact with ⟨-, rfl⟩ | ⟨hcaller, rfl⟩
      · simp only [Reporter.step, Reporter.reportMetric] at hr
        split at hr
        · cases hr
        · split at hr
          · rw [← Option.some.inj hr] at hcall; cases hcall; rfl
          · rw [← Option.some.inj hr] at hcall; cases hcall
      · obtain ⟨k₀, hk₀, e⟩ := Option.map_eq_some_iff.mp hr
        obtain ⟨run', key', n', v', hi', -, hid⟩ := h.calling i hcaller
        rw [hi] at hi'; cases hi'
        rw [← e] at hcall
        rw [callStep_runId hcall]; exact hid k₀ hk₀
    refine ⟨fun e => ?_, fun j e => ?_⟩
    · rw [hm.caller] at e
      split at e
      · cases e
      · rename_i hn; exact Option.not_isSome_iff_eq_none.mp hn
    · rw [hm.caller] at e
      split at e
      · rename_i hsome
        cases e
        refine ⟨run, key, n, v, ?_, rfl, hrun⟩
        rw [hm.calls hsome]; exact hi
      · cases e
  · refine h.keep hc hr fun j e => ?_
    obtain ⟨run, key, n, v, hj, hcl, -⟩ := h.calling j e
    exact hcalls j run key n v hj hcl

end

/-! ## Joined workers -/

/-- The shutdown waits for the worker, or has done so and goes on to its `Ok`. -/
def ShutdownPc.joins : ShutdownPc → Bool
  | .reporter (.join _) | .reporter .setClosed | .reporter (.done (.ok ())) => true
  | .releaseAll (.ok ()) | .store => true
  | _ => false

/-- Whoever has the worker's join handle waits for the worker. -/
structure JoinInv (s : World) (c : Nat) : Prop where
  joined : (s.clients c).reporter.joinHandle = false → (s.clients c).reporter.worker.hasExited = true ∨
    ∃ j result, s.calls j = .shutdown c (.reporter (.join result))
  joins : ∀ j pc, s.calls j = .shutdown c pc → pc.joins = true → (s.clients c).reporter.joinHandle = false
  closed : (s.clients c).isShutdown = true → (s.clients c).reporter.joinHandle = false

section
variable {s t : World} {c : Nat} {act : WorldAct}

theorem exited_step (hs : s.step act = some t) (h : (s.clients c).reporter.worker.hasExited = true) :
    (t.clients c).reporter.worker.hasExited = true := by
  rcases reporters_step hs c with e | ⟨a, -, e⟩
  · rw [e]; exact h
  · rw [reporter_stays_exited e h]; exact h

theorem JoinInv.keep (h : JoinInv s c) (hs : s.step act = some t)
    (hj : (t.clients c).reporter.joinHandle = (s.clients c).reporter.joinHandle)
    (hsd : (t.clients c).isShutdown = (s.clients c).isShutdown)
    (hold : ∀ j pc, s.calls j = .shutdown c pc → t.calls j = .shutdown c pc)
    (hnew : ∀ j pc, t.calls j = .shutdown c pc → s.calls j = .shutdown c pc ∨ pc.joins = false) : JoinInv t c := by
  refine ⟨fun e => ?_, fun j pc e hp => ?_, fun e => ?_⟩
  · rw [hj] at e
    refine (h.joined e).imp (exited_step hs) ?_
    rintro ⟨j, result, hc⟩
    exact ⟨j, result, hold j _ hc⟩
  · rw [hj]
    rcases hnew j pc e with hc | hn
    · exact h.joins j pc hc hp
    · rw [hp] at hn; cases hn
  · rw [hj]; exact h.closed (hsd ▸ e)

theorem shutdownMove_joins {q q' : Reporter} {d d' : Shutdown} (hm : ShutdownMove q d q' d')
    (hd : (ShutdownPc.reporter d).joins = true → q.joinHandle = false) :
    q'.worker = q.worker ∧
      (q'.joinHandle = false → q.joinHandle = false ∨ ∃ result, d' = .join result) ∧
      (q.joinHandle = false → q'.joinHandle = false) ∧
      (∀ result, d = .join result → q.worker.hasExited = true) ∧
      ((ShutdownPc.reporter d').joins = true → q'.joinHandle = false) := by
  cases hm with
  | drain | timeout | drained | takeSender => exact ⟨rfl, Or.inl, id, nofun, nofun⟩
  | takeWorker hj => exact ⟨rfl, fun _ => Or.inr ⟨_, rfl⟩, fun _ => rfl, nofun, fun _ => rfl⟩
  | noWorker hj => exact ⟨rfl, Or.inl, id, nofun, fun _ => hj⟩
  | join hx => exact ⟨rfl, Or.inl, id, fun _ _ => hx, fun _ => hd rfl⟩
  | setClosed => exact ⟨rfl, Or.inl, id, nofun, fun _ => hd rfl⟩

theorem JoinInv.shutdown {i : Nat} {env : Env} {pc : ShutdownPc} (h : JoinInv s c)
    (hk : s.calls i = .shutdown c pc) (hs : s.shutdownStep i c env pc = some t) : JoinInv t c := by
  -- the call is at `pc'` or has returned, its worker joined if it is to be
  have hmove : ∀ {k' : Call}, t.calls = Function.update s.calls i k' →
      (t.clients c).reporter.worker = (s.clients c).reporter.worker →
      ((t.clients c).reporter.joinHandle = false → (s.clients c).reporter.joinHandle = false ∨
        ∃ result, k' = .shutdown c (.reporter (.join result))) →
      ((s.clients c).reporter.joinHandle = false → (t.clients c).reporter.joinHandle = false) →
      (∀ result, pc = .reporter (.join result) → (s.clients c).reporter.worker.hasExited = true) →
      (∀ pc', k' = .shutdown c pc' → pc'.joins = true → (t.clients c).reporter.joinHandle = false) →
      ((t.clients c).isShutdown = true → (t.clients c).reporter.joinHandle = false) → JoinInv t c := by
    intro k' hcalls hw hj hj' hjoin hpc hsd
    refine ⟨fun e => ?_, fun j pc' e hp => ?_, hsd⟩
    · rw [hw]
      rcases hj e with e | ⟨result, rfl⟩
      · rcases h.joined e with hx | ⟨j, result, hc⟩
        · exact Or.inl hx
        · by_cases hji : j = i
          · rw [hji, hk] at hc; cases hc
            exact Or.inl (hjoin result rfl)
          · exact Or.inr ⟨j, result, by rw [hcalls, Function.update_of_ne hji]; exact hc⟩
      · exact Or.inr ⟨i, result, by rw [hcalls, Function.update_self]⟩
    · rw [hcalls] at e
      by_cases hji : j = i
      · rw [hji, Function.update_self] at e; exact hpc pc' e hp
      · rw [Function.update_of_ne hji] at e
        exact hj' (h.joins j pc' e hp)
  have hstay : ∀ {k' : Call}, t.calls = Function.update s.calls i k' → t.clients = s.clients →
      (∀ result, pc ≠ .reporter (.join result)) →
      (∀ pc', k' = .shutdown c pc' → pc'.joins = true → pc.joins = true) → JoinInv t c := by
    intro k' hcalls hc hn hpc
    refine hmove hcalls (by rw [hc]) (fun e => Or.inl (hc ▸ e)) (fun e => hc ▸ e)
      (fun result e => absurd e (hn result)) (fun pc' e hp => ?_) (fun e => ?_)
    · rw [hc]; exact h.joins i pc hk (hpc pc' e hp)
    · rw [hc] at e ⊢; exact h.closed e
  cases pc with
  | reporter d =>
    unfold World.shutdownStep at hs
    split at hs
    · rename_i he
      cases he; cases hs
      exact hstay rfl rfl nofun fun _ e => by cases e
    · rename_i result _ he
      cases he; cases hs
      refine hstay rfl rfl nofun fun pc' e hp => ?_
      cases e
      cases result with
      | ok => rfl
      | error e => cases hp
    · rename_i d₀ _ _ he
      cases he
      obtain ⟨⟨r', d'⟩, hx, rfl⟩ := Option.map_eq_some_iff.mp hs
      have hself : ((s.setReporter c r').setCall i (.shutdown c (.reporter d'))).clients c =
          { s.clients c with reporter := r' } := setClient_self s c _
      obtain ⟨hw, hj, hj', hjoin, hpc⟩ := shutdownMove_joins (shutdownMove_of_step hx) (h.joins i _ hk)
      refine hmove rfl ?_ ?_ ?_ (fun result e => hjoin result (ShutdownPc.reporter.inj e)) ?_ ?_
      · rw [hself]; exact hw
      · rw [hself]
        exact fun e => (hj e).imp id fun ⟨result, e⟩ => ⟨result, by rw [e]⟩
      · rw [hself]; exact hj'
      · rw [hself]
        intro pc' e hp
        cases e; exact hpc hp
      · rw [hself]
        exact fun e => hj' (h.closed e)
    all_goals (rename_i he; cases he)
  | releaseAll result =>
    cases result with
    | ok =>
      cases hs
      exact hstay rfl rfl nofun fun _ _ _ => rfl
    | error e =>
      cases hs
      exact hstay rfl rfl nofun fun _ e => by cases e
  | store =>
    cases hs
    have hself : ((s.setClient c { s.clients c with isShutdown := true }).returns i (.ok none)).clients c =
        { s.clients c with isShutdown := true } := setClient_self s c _
    refine hmove rfl ?_ ?_ ?_ nofun (fun _ e => by cases e) ?_
    all_goals rw [hself]
    · exact Or.inl
    · exact id
    · exact fun _ => h.joins i _ hk rfl

theorem JoinInv.step (h : JoinInv s c) (hs : s.step act = some t) : JoinInv t c := by
  by_cases hown : ∃ i env pc, act = .go i env ∧ s.calls i = .shutdown c pc
  · obtain ⟨i, env, pc, rfl, hi⟩ := hown
    simp only [World.step, hi, World.callStep] at hs
    exact h.shutdown hi hs
  · have hclient : (t.clients c).reporter.joinHandle = (s.clients c).reporter.joinHandle ∧
        (t.clients c).isShutdown = (s.clients c).isShutdown := by
      cases client_move hs c with
      | keeps hr _ hsd => exact ⟨by rw [hr], hsd⟩
      | log _ hc ha hm =>
        subst hc
        refine ⟨joinHandle_step ?_ hm.reporter, hm.isShutdown _⟩
        rcases ha with ⟨-, rfl⟩ | ⟨-, rfl⟩ <;> simp
      | shutdown hi => exact absurd ⟨_, _, _, rfl, hi⟩ hown
      | work hr _ hsd => exact ⟨joinHandle_step (by simp) hr, hsd⟩
    refine h.keep hs hclient.1 hclient.2 (fun j pc e => ?_) fun j pc e => ?_
    · rcases calls_step hs j with e' | ⟨request, -, hb, -⟩ | ⟨env, rfl, -⟩
      · rw [e']; exact e
      · rw [e] at hb; cases hb
      · exact absurd ⟨j, env, pc, rfl, e⟩ hown
    · rcases calls_step hs j with e' | ⟨request, -, -, e'⟩ | ⟨env, rfl, hcont⟩
      · exact Or.inl (e' ▸ e)
      · right
        rw [e] at e'
        cases request <;> cases e'
        rfl
      · have hshuts := hcont.shuts c (by rw [e]; rfl)
        cases hj : s.calls j with
        | shutdown d pc' =>
          rw [hj] at hshuts; cases hshuts
          exact absurd ⟨j, env, pc', rfl, hj⟩ hown
        | _ => rw [hj] at hshuts; cases hshuts

end

/-! ## Earlier and later clients -/

def Call.started : Call → Option Nat
  | .createRun _ _ _ _ .ensureWriteable | .resumeRun _ _ .ensureWriteable
  | .finalizeRun _ _ _ .ensureWriteable => none
  | .createRun c _ _ _ _ | .resumeRun c _ _ | .finalizeRun c _ _ _ => some c
  | _ => none

/-- The client on which the step starts a call that does not log, or makes a handle. -/
def WorldAct.uses : WorldAct → Option Nat
  | .start _ request => request.call.uses
  | .runHandle c _ => some c
  | _ => none

/-- When a client is used, the clients before it are shut down, with no call but
log calls under way. -/
def OneAfterAnother (s : World) (act : WorldAct) : Prop :=
  ∀ c, act.uses = some c → ∀ d, d < c → (s.clients d).isShutdown = true ∧ ∀ j, (s.calls j).uses ≠ some d

/-- The client has a call that does not log, an active run or a handle. -/
def World.used (s : World) (c : Nat) : Prop :=
  (∃ j, (s.calls j).uses = some c) ∨ (∃ r a, s.registry.activeRuns c r = some a) ∨
    ∃ run ∈ s.registry.handles, run.client = c

structure Ended (s : World) (d : Nat) : Prop where
  isShutdown : (s.clients d).isShutdown = true
  exited : (s.clients d).reporter.worker.hasExited = true
  started : ∀ j, (s.calls j).started ≠ some d

structure SequenceInv (s : World) : Prop where
  caller : ∀ c, CallerInv s c
  joins : ∀ c, JoinInv s c
  ended : ∀ c, s.used c → ∀ d, d < c → Ended s d
  handled : ∀ c, (s.clients c).reporter.accepted ≠ [] → ∃ run ∈ s.registry.handles, run.client = c

theorem uses_of_started {k : Call} {d : Nat} (h : k.started = some d) : k.uses = some d := by
  cases k with
  | createRun _ _ _ _ pc => cases pc <;> first | exact h | cases h
  | resumeRun _ _ pc => cases pc <;> first | exact h | cases h
  | finalizeRun _ _ _ pc => cases pc <;> first | exact h | cases h
  | _ => cases h

theorem operates_of_started {k : Call} {d : Nat} (h : k.started = some d) : k.operates ≠ none := by
  cases k with
  | createRun | resumeRun | finalizeRun => exact nofun
  | _ => cases h

/-- A call acquires the lock of the run it operates on, for the client it uses. -/
theorem calls_of_acquires {k : Call} {c : Nat} {r : RunId} (h : k.acquires = some (c, r)) :
    k.uses = some c ∧ k.operates = some r := by
  cases k with
  | createRun _ _ _ _ pc => cases pc <;> cases h; exact ⟨rfl, rfl⟩
  | resumeRun _ _ pc => cases pc <;> cases h; exact ⟨rfl, rfl⟩
  | finalizeRun _ _ _ pc => cases pc <;> cases h; exact ⟨rfl, rfl⟩
  | _ => cases h

section
variable {s t : World} {c d i : Nat} {act : WorldAct} {env : Env}

theorem isShutdown_step (hs : s.step act = some t) (h : (s.clients d).isShutdown = true) :
    (t.clients d).isShutdown = true := by
  cases client_move hs d with
  | keeps _ _ e | work _ _ e => rw [e]; exact h
  | log _ _ _ hm => rw [hm.isShutdown d]; exact h
  | shutdown _ hm => exact hm.isShutdown h

theorem started_go (h : s.step (.go i env) = some t) (hd : (t.calls i).started = some d) :
    (s.calls i).started = some d ∨ (s.clients d).isShutdown = false := by
  obtain ⟨k', hcalls, hcont⟩ := calls_go h
  have hk' : t.calls i = k' := by rw [hcalls, Function.update_self]
  have huses := hcont.uses d (hk' ▸ uses_of_started hd)
  have hop : (s.calls i).operates ≠ none := by
    obtain ⟨r, hr⟩ := Option.ne_none_iff_exists'.mp (operates_of_started (hk' ▸ hd))
    rw [hcont.operates r hr]; exact nofun
  have hreturned : ∀ {result : Except EngineError (Option Run)}, t.calls i ≠ .returned result := by
    intro result e
    rw [e] at hd; cases hd
  simp only [World.step] at h
  generalize s.calls i = k at h huses hop
  cases k with
  | createRun c' projectId name r pc =>
    cases huses
    cases pc with
    | ensureWriteable =>
      simp only [World.callStep, World.createRunStep] at h
      split at h
      · cases h; exact absurd (Function.update_self ..) hreturned
      · rename_i hsd; exact Or.inr (by simpa using hsd)
    | _ => exact Or.inl rfl
  | resumeRun c' r pc =>
    cases huses
    cases pc with
    | ensureWriteable =>
      simp only [World.callStep, World.resumeRunStep] at h
      split at h
      · cases h; exact absurd (Function.update_self ..) hreturned
      · rename_i hsd; exact Or.inr (by simpa using hsd)
    | _ => exact Or.inl rfl
  | finalizeRun c' r target pc =>
    cases huses
    cases pc with
    | ensureWriteable =>
      simp only [World.callStep, World.finalizeRunStep] at h
      split at h
      · cases h; exact absurd (Function.update_self ..) hreturned
      · rename_i hsd; exact Or.inr (by simpa using hsd)
    | _ => exact Or.inl rfl
  | _ => exact absurd rfl hop

theorem Ended.step (h : Ended s d) (hs : s.step act = some t) : Ended t d := by
  refine ⟨isShutdown_step hs h.isShutdown, exited_step hs h.exited, fun j hj => ?_⟩
  rcases calls_step hs j with e | ⟨request, -, -, e⟩ | ⟨env, rfl, -⟩
  · rw [e] at hj; exact h.started j hj
  · rw [e] at hj
    cases request <;> cases hj
  · rcases started_go hs hj with e | e
    · exact h.started j e
    · rw [h.isShutdown] at e; cases e

/-- A client gets its first call, active run or handle by being used. -/
theorem used_step (hs : s.step act = some t) (hu : t.used c) : s.used c ∨ act.uses = some c := by
  obtain ⟨i, l, hm, hof⟩ := world_refines hs
  rcases hu with ⟨j, hj⟩ | ⟨r, a, ha⟩ | ⟨run, hrun, hc⟩
  · rcases calls_key (fun _ _ hk => hk.uses) hs hj with hj | ⟨request, rfl, hj⟩
    · exact Or.inl (Or.inl ⟨j, hj⟩)
    · exact Or.inr hj
  · by_cases hl : l = .register c r
    · subst hl
      cases hof with
      | go hby => exact Or.inl (Or.inl ⟨i, (calls_of_acquires (hby.acquires c r rfl).1).1⟩)
    · exact Or.inl (Or.inr (Or.inl ⟨r, a, map_move hm hl ha⟩))
  · rcases handles_move hm hrun with hr | rfl
    · exact Or.inl (Or.inr (Or.inr ⟨run, hr, hc⟩))
    · cases hof with
      | go hby => exact absurd rfl (hby.handles _ _)
      | handle => exact Or.inr (by rw [← hc]; rfl)

theorem SequenceInv.step (h : SequenceInv s) (hlock : LockInv s.protocol) (hone : OneAfterAnother s act)
    (hs : s.step act = some t) : SequenceInv t := by
  refine ⟨fun c => (h.caller c).step hs, fun c => (h.joins c).step hs, fun c hu d hd => ?_, fun c ha => ?_⟩
  · refine Ended.step ?_ hs
    rcases used_step hs hu with hu | hu
    · exact h.ended c hu d hd
    · obtain ⟨hsd, hcalls⟩ := hone c hu d hd
      refine ⟨hsd, ?_, fun j e => hcalls j (uses_of_started e)⟩
      rcases (h.joins d).joined ((h.joins d).closed hsd) with hx | ⟨j, result, hj⟩
      · exact hx
      · exact absurd (by rw [hj]; rfl) (hcalls j)
  · obtain ⟨i, l, hm, -⟩ := world_refines hs
    have hold : (s.clients c).reporter.accepted ≠ [] → ∃ run ∈ t.registry.handles, run.client = c := fun ha => by
      obtain ⟨run, hrun, hc⟩ := h.handled c ha
      exact ⟨run, handles_kept hm hrun, hc⟩
    rcases reporters_step hs c with e | ⟨a, hcause, hst⟩
    · exact hold (e ▸ ha)
    · cases hcause with
      | @log j env run key n v _ hj hc hact =>
        -- the log call was let in through a handle
        have hlog : s.protocol.threads j = .logging run := by
          show (s.calls j).thread = _; rw [hj]; rfl
        exact ⟨run, handles_kept hm ((hlock.threads j).logging run hlog).1, hc⟩
      | shutdown _ hact =>
        refine hold ?_
        rw [← (call_step hst ?_ ?_).2]
        · exact ha
        · rintro _ _ _ _ rfl; rcases hact with e | e | e <;> cases e
        · rintro _ rfl; rcases hact with e | e | e <;> cases e
      | work =>
        refine hold ?_
        rw [← (call_step hst nofun nofun).2]; exact ha

end

theorem joinInv_init (projects : List Project) (runs : List Run) (capacity : Nat → Nat) (c : Nat) :
    JoinInv (World.init projects runs capacity) c where
  joined e := by cases e
  joins _ _ e := by cases e
  closed e := by cases e

theorem sequenceInv_init (projects : List Project) (runs : List Run) (capacity : Nat → Nat) :
    SequenceInv (World.init projects runs capacity) where
  caller _ := ⟨fun _ => rfl, fun _ e => by cases e⟩
  joins := joinInv_init projects runs capacity
  ended c hu := by
    rcases hu with ⟨j, hj⟩ | ⟨r, a, ha⟩ | ⟨run, hrun, -⟩
    · cases hj
    · cases ha
    · cases hrun
  handled _ ha := absurd rfl ha

end Pulseon
