import Mathlib.Data.Fintype.EquivFin
import Pulseon.SequenceSound
import Pulseon.ProjectSound
import Pulseon.ConnectionSound

/-!
# Shut-down clients

A `shutdown` whose drain succeeds drops the sender and sets `is_shutdown`. From
then on every call made on the client is refused: it returns an error, stores
nothing and takes no lock. A `shutdown` that finds the writer failed releases
the runs of the client and leaves the flag unset, and the client still writes.
-/

namespace Pulseon

/-! ## Admission gates -/

/-- A gate that is held is held by a log call inside `report_metric`. -/
structure GateInv (p : Protocol) : Prop where
  held : p.registry.Held
  handled : ∀ run ∈ p.registry.handles, p.registry.Keyed run.client run.runId run.activeRun
  logging : ∀ i run, p.threads i = .logging run → run ∈ p.registry.handles
  gated : ∀ a i, (p.registry.active a).gate = some i → ∃ run, p.threads i = .logging run ∧ run.activeRun = a

section
variable {p q : Protocol} {i : Nat} {l : ProtocolAct}

theorem Thread.Acquires.quiet {c a : Nat} {r : RunId} {th th' : Thread} (h : th.Acquires c r a th')
    (run : NativeRun) :
    th ≠ .logging run ∧ th' ≠ .logging run := by
  cases h <;> simp

theorem GateInv.build (h : GateInv p) (g : Registry) (runs : List Run) (torn : Nat → Bool) {th : Thread}
    (hheld : g.Held) (hkeyed : ∀ c r a, p.registry.Keyed c r a → g.Keyed c r a)
    (hhandles : g.handles = p.registry.handles)
    (hgate : ∀ a j, (g.active a).gate = some j → (p.registry.active a).gate = some j)
    (hfree : ∀ run, p.threads i ≠ .logging run) (hth : ∀ run, th ≠ .logging run) :
    GateInv (Protocol.setThread ⟨g, runs, torn, p.threads⟩ i th) := by
  have hself : (Protocol.setThread ⟨g, runs, torn, p.threads⟩ i th).threads i = th := Function.update_self ..
  have hother : ∀ j, j ≠ i → (Protocol.setThread ⟨g, runs, torn, p.threads⟩ i th).threads j = p.threads j :=
    fun j hj => Function.update_of_ne hj ..
  refine ⟨hheld, fun run hrun => ?_, fun j run hj => ?_, fun a j hj => ?_⟩
  · exact hkeyed _ _ _ (h.handled run (hhandles ▸ hrun))
  · show run ∈ g.handles
    rw [hhandles]
    by_cases hji : j = i
    · rw [hji, hself] at hj; exact absurd hj (hth run)
    · rw [hother j hji] at hj; exact h.logging j run hj
  · obtain ⟨run, hlog, hrun⟩ := h.gated a j (hgate a j hj)
    have hji : j ≠ i := by rintro rfl; exact hfree run hlog
    exact ⟨run, by rw [hother j hji]; exact hlog, hrun⟩

theorem GateInv.setRegistry (h : GateInv p) {g : Registry} (hheld : g.Held)
    (hhandled : ∀ run ∈ g.handles, g.Keyed run.client run.runId run.activeRun)
    (hhandles : ∀ run ∈ p.registry.handles, run ∈ g.handles)
    (hgate : ∀ a j, (g.active a).gate = some j → (p.registry.active a).gate = some j) : GateInv (p.setRegistry g) :=
  ⟨hheld, hhandled, fun j run hj => hhandles run (h.logging j run hj), fun a j hj => h.gated a j (hgate a j hj)⟩

theorem setAdmission_gate (g : Registry) (a : Nat) (x : RunAdmission) (b : Nat) :
    ((g.setAdmission a x).active b).gate = (g.active b).gate := by
  rw [Registry.setAdmission_active]; split
  · rename_i e; rw [e]
  · rfl

theorem GateInv.setAdmission (h : GateInv p) (a : Nat) (x : RunAdmission) :
    GateInv (p.setRegistry (p.registry.setAdmission a x)) := by
  refine h.setRegistry (h.held.setAdmission a x) (fun run hrun => ?_) (fun _ e => e) fun b j e => ?_
  · simp only [Registry.Keyed, Registry.setAdmission_client, Registry.setAdmission_runId]; exact h.handled run hrun
  · rw [setAdmission_gate] at e; exact e

theorem GateInv.setThread (h : GateInv p) {th : Thread} (hfree : ∀ run, p.threads i ≠ .logging run)
    (hth : ∀ run, th ≠ .logging run) : GateInv (p.setThread i th) :=
  h.build p.registry p.runs p.torn h.held (fun _ _ _ e => e) rfl (fun _ _ e => e) hfree hth

theorem GateInv.setGate (h : GateInv p) {run : NativeRun} {x : Option Nat} {th : Thread}
    (hold : ∀ other, p.threads i = .logging other → other = run)
    (hnew : ∀ other, th = .logging other → other = run ∧ run ∈ p.registry.handles)
    (hx : ∀ j, x = some j → j = i ∧ th = .logging run) :
    GateInv ((p.setRegistry (p.registry.setGate run.activeRun x)).setThread i th) := by
  have hself : ((p.setRegistry (p.registry.setGate run.activeRun x)).setThread i th).threads i = th :=
    Function.update_self ..
  have hother : ∀ j, j ≠ i →
      ((p.setRegistry (p.registry.setGate run.activeRun x)).setThread i th).threads j = p.threads j :=
    fun j hj => Function.update_of_ne hj ..
  refine ⟨h.held.setGate run.activeRun x, fun other ho => ?_, fun j other hj => ?_, fun a j hj => ?_⟩
  · show (p.registry.setGate run.activeRun x).Keyed other.client other.runId other.activeRun
    simp only [Registry.Keyed, Registry.setGate_client, Registry.setGate_runId]
    exact h.handled other ho
  · by_cases hji : j = i
    · rw [hji, hself] at hj
      obtain ⟨rfl, hmem⟩ := hnew other hj
      exact hmem
    · rw [hother j hji] at hj; exact h.logging j other hj
  · change ((p.registry.setGate run.activeRun x).active a).gate = some j at hj
    rw [Registry.setGate_active] at hj
    split at hj
    · rename_i ha
      obtain ⟨rfl, hth⟩ := hx j hj
      exact ⟨run, by rw [hself, hth], ha.symm⟩
    · rename_i ha
      obtain ⟨other, hlog, hact⟩ := h.gated a j hj
      have hji : j ≠ i := by
        rintro rfl
        rw [hold other hlog] at hact
        exact ha hact.symm
      exact ⟨other, by rw [hother j hji]; exact hlog, hact⟩

theorem GateInv.move (h : GateInv p) (hm : ProtocolMove p i l q) : GateInv q := by
  have hfree : ∀ {th : Thread}, p.threads i = th → (∀ run, th ≠ .logging run) → ∀ run, p.threads i ≠ .logging run :=
    fun e hth run hrun => hth run (e.symm.trans hrun)
  cases hm with
  | stay => exact h
  | returns hr =>
    refine h.setThread (fun run hrun => ?_) (by simp)
    rw [hrun] at hr; cases hr
  | begin hi | absent hi | check hi => exact h.setThread (hfree hi (by simp)) (by simp)
  | undo hi =>
    refine h.setThread (fun run hrun => ?_) (by simp)
    rcases hi with hi | hi <;> (rw [hi] at hrun; cases hrun)
  | share _ hth => exact h.setThread (fun run => (hth.quiet run).1) fun run => (hth.quiet run).2
  | register _ hlock hth =>
    rename_i c r th _
    refine h.build (p.registry.register c r) p.runs p.torn (h.held.register hlock)
      (p.registry.keeps_register c r).keyed
      rfl (fun a j e => ?_) (fun run => (hth.quiet run).1) fun run => (hth.quiet run).2
    rw [Registry.register_active] at e
    split at e
    · cases e
    · exact e
  | insert hi =>
    exact h.build p.registry _ p.torn h.held (fun _ _ _ e => e) rfl (fun _ _ e => e) (hfree hi (by simp)) (by simp)
  | mark hi =>
    exact h.build p.registry _ p.torn h.held (fun _ _ _ e => e) rfl (fun _ _ e => e) (hfree hi (by simp)) (by simp)
  | tear hi =>
    exact h.build p.registry p.runs _ h.held (fun _ _ _ e => e) rfl (fun _ _ e => e) (hfree hi (by simp)) (by simp)
  | undoWriter hi | releaseWriter hi =>
    rename_i c r a
    refine h.build (p.registry.releaseRunWriter c r) p.runs p.torn (h.held.releaseRunWriter c r)
      (p.registry.keeps_releaseRunWriter c r).keyed (by simp) (fun b j e => ?_) (hfree hi (by simp)) (by simp)
    rw [Registry.releaseRunWriter_gate] at e; exact e
  | undoLock hi | releaseLock hi =>
    rename_i c r a
    refine h.build (p.registry.releaseLock a) p.runs p.torn (h.held.releaseLock a)
      (p.registry.keeps_releaseLock a).keyed (by simp) (fun b j e => ?_) (hfree hi (by simp)) (by simp)
    rw [Registry.releaseLock_gate] at e; exact e
  | releaseAll hi =>
    rename_i c
    refine h.build (p.registry.releaseAllRunWriters c) p.runs p.torn (h.held.releaseAll c)
      (p.registry.keeps_releaseAll c).keyed rfl (fun b j e => ?_) (hfree hi (by simp)) (by simp)
    rw [Registry.releaseAll_gate] at e; exact e
  | close => exact h.setAdmission _ _
  | markTerminal hi =>
    rename_i c r a _
    have hadm := h.setAdmission a .terminal
    have hterm : GateInv (p.setRegistry (p.registry.markTerminal c r a)) :=
      ⟨⟨hadm.held.keyed, hadm.held.locked⟩, hadm.handled, hadm.logging, hadm.gated⟩
    exact hterm.setThread (hfree hi (by simp)) (by simp)
  | reopen hi => exact (h.setAdmission _ _).setThread (hfree hi (by simp)) (by simp)
  | enter hi hmem =>
    refine h.setGate (fun other e => ?_) (fun other e => ?_) (fun j e => ?_)
    · rw [hi] at e; cases e
    · cases e; exact ⟨rfl, hmem⟩
    · cases e; exact ⟨rfl, rfl⟩
  | leave hi =>
    refine h.setGate (fun other e => ?_) (by simp) (by simp)
    rw [hi] at e; cases e; rfl
  | handle =>
    rename_i c r
    refine h.setRegistry (h.held.runHandle c r) (fun run hrun => ?_) (fun run hrun => ?_) fun a j e => ?_
    · rcases (Registry.runHandle_handles _ _ _).mp hrun with hr | ⟨a, rfl, ha | ⟨ha, rfl⟩⟩
      · exact (p.registry.keeps_runHandle c r).keyed _ _ _ (h.handled run hr)
      · exact (p.registry.keeps_runHandle c r).keyed _ _ _ (h.held.keyed c r a ha)
      · refine ⟨?_, ?_⟩
        · simp [Registry.runHandle_active, ha]
        · simp [Registry.runHandle, ha, Registry.addActive]
    · exact (Registry.runHandle_handles _ _ _).mpr (Or.inl hrun)
    · rw [Registry.runHandle_active] at e
      split at e
      · cases e
      · exact e

end

/-! ## The flag -/

theorem tearing_move {p q : Protocol} {i : Nat} {l : ProtocolAct} (hm : ProtocolMove p i l q) {j c : Nat}
    (hj : q.threads j = .tearing c) : p.threads j = .tearing c ∨ q.torn c = true := by
  by_cases hji : j = i
  · subst hji
    have hself : ∀ {p' : Protocol} {th : Thread}, (p'.setThread j th).threads j = th := Function.update_self ..
    cases hm with
    | tear => rw [hself] at hj; cases hj; exact Or.inr (Function.update_self ..)
    | share _ hth | register _ _ hth =>
      rw [hself] at hj; subst hj
      generalize p.threads j = th at hth
      cases hth
    | stay | close | handle => exact Or.inl hj
    | _ => rw [hself] at hj; cases hj
  · exact Or.inl (by rw [← threads_move hm hji]; exact hj)

/-- The flag is set by a shutdown that has dropped the sender, and a report
needs the sender. -/
structure FlagInv (s : World) (c : Nat) : Prop where
  tearing : ∀ i, (s.calls i).thread = .tearing c → (s.clients c).reporter.sender = false
  storing : ∀ i, s.calls i = .shutdown c .store → (s.clients c).reporter.sender = false
  closed : (s.clients c).isShutdown = true → (s.clients c).reporter.sender = false
  caller : (s.clients c).reporter.call = none → (s.clients c).caller = none
  counted : Ordered (s.clients c).reporter ∧ Counted (s.clients c).reporter

section
variable {s t : World} {i c : Nat} {act : WorldAct} {env : Env}

theorem shutdown_go {pc : ShutdownPc} (hk : s.calls i = .shutdown c pc) (hs : s.step (.go i env) = some t) :
    (t.clients c).isShutdown = ((s.clients c).isShutdown || (t.calls i).isOk) ∧
      ((t.calls i).isOk = true → pc = .store) ∧
        (t.calls i = .shutdown c .store → (s.calls i).thread = .tearing c) := by
  have hself : ∀ {s' : World} {k : Call}, (s'.setCall i k).calls i = k := Function.update_self ..
  have hret : ∀ {s' : World} {result : Except EngineError (Option Run)}, (s'.returns i result).calls i =
    .returned result :=
    hself
  rw [hk]
  simp only [World.step, hk] at hs
  cases pc with
  | reporter d =>
    simp only [World.callStep] at hs
    unfold World.shutdownStep at hs
    split at hs
    · cases hs; rw [hret]; simp [World.returns, World.setCall, Call.isOk]
    · cases hs; rw [hself]; simp [World.setCall, Call.isOk]
    · rename_i he
      cases he
      obtain ⟨x, -, rfl⟩ := Option.map_eq_some_iff.mp hs
      rw [hself]
      simp only [Call.isOk, Bool.or_false, Bool.false_eq_true, false_implies, reduceCtorEq, true_and]
      refine ⟨?_, by simp⟩
      show ((s.setClient c { s.clients c with reporter := x.1 }).clients c).isShutdown = _
      rw [setClient_self]
    all_goals (rename_i he; cases he)
  | releaseAll result =>
    cases result with
    | ok => cases hs; rw [hself]; simp [World.setCall, World.setRegistry, Call.isOk, Call.thread]
    | error e => cases hs; rw [hret]; simp [World.returns, World.setCall, World.setRegistry, Call.isOk]
  | store =>
    cases hs
    rw [hret]
    refine ⟨?_, fun _ => rfl, by simp⟩
    show ((s.setClient c { s.clients c with isShutdown := true }).clients c).isShutdown = (_ || true)
    rw [setClient_self, Bool.or_true]

theorem sender_stays (hs : s.step act = some t) (h : (s.clients c).reporter.sender = false) :
    (t.clients c).reporter.sender = false := by
  rcases reporters_step hs c with e | ⟨a, -, e⟩
  · rw [e]; exact h
  · rw [sender_step e, h]; rfl

theorem FlagInv.step (h : FlagInv s c) (hs : s.step act = some t) : FlagInv t c := by
  obtain ⟨i, l, hm, -⟩ := world_refines hs
  refine ⟨fun j hj => ?_, fun j hj => ?_, fun hf => ?_, fun hc => ?_, ?_⟩
  · rcases tearing_move hm hj with e | e
    · exact sender_stays hs (h.tearing j e)
    · simpa [World.protocol] using e
  · apply sender_stays hs
    rcases calls_step hs j with e | ⟨request, -, -, e⟩ | ⟨env, rfl, hk⟩
    · exact h.storing j (e ▸ hj)
    · rw [hj] at e; cases request <;> cases e
    · have hsh := hk.shuts c (by rw [hj]; rfl)
      cases hc : s.calls j with
      | shutdown d pc =>
        rw [hc] at hsh; cases hsh
        exact h.tearing j ((shutdown_go hc hs).2.2 hj)
      | _ => rw [hc] at hsh; cases hsh
  · apply sender_stays hs
    cases client_move hs c with
    | keeps _ _ e | work _ _ e => exact h.closed (e ▸ hf)
    | log _ _ _ hm => exact h.closed (hm.isShutdown c ▸ hf)
    | shutdown hk =>
      obtain ⟨hflag, hstore, -⟩ := shutdown_go hk hs
      rw [hflag, Bool.or_eq_true] at hf
      rcases hf with hf | hf
      · exact h.closed hf
      · rw [hstore hf] at hk; exact h.storing _ hk
  · cases client_move hs c with
    | keeps hr hca => rw [hca]; exact h.caller (hr ▸ hc)
    | log _ hcl _ hm => subst hcl; rw [hm.caller, hc]; rfl
    | shutdown _ hm =>
      rw [hm.caller]
      apply h.caller
      rcases hm.reporter with e | ⟨a, ha, e⟩
      · rw [← e]; exact hc
      · rw [←
          (call_step e (by rcases ha with rfl | rfl | rfl <;> simp) (by rcases ha with rfl | rfl | rfl <;> simp)).1]
        exact hc
    | work hr hca => rw [hca]; apply h.caller; rw [← (call_step hr (by simp) (by simp)).1]; exact hc
  · rcases reporters_step hs c with e | ⟨a, -, e⟩
    · rw [e]; exact h.counted
    · exact ⟨h.counted.1.step e, h.counted.2.step h.counted.1 e⟩

end

theorem flagInv_init (projects : List Project) (runs : List Run) (capacity : Nat → Nat) (c : Nat) :
    FlagInv (World.init projects runs capacity) c :=
  ⟨nofun, nofun, nofun, fun _ => rfl, ordered_init _, counted_init _⟩

/-! ## Refused calls -/

/-- A call made on a client with the flag set: it has not passed
`ensure_writeable`, or it logs, or it has returned an error. -/
def Call.refused (s : World) (c : Nat) : Call → Prop
  | .createProject d _ _ .ensureWriteable | .createRun d _ _ _ .ensureWriteable | .resumeRun d _
    .ensureWriteable => d = c
  | .finalizeRun d _ _ .ensureWriteable | .flushRunData d _ .ensureWriteable => d = c
  | .logMetricAtStep run _ _ _ _ => run.client = c ∧ run ∈ s.registry.handles
  | .returned (.error _) => True
  | _ => False

structure SameStore (s t : World) : Prop where
  projects : t.projects = s.projects
  runs : t.runs = s.runs
  points : t.points = s.points
  aggregates : t.aggregates = s.aggregates
  channel : ∀ c, (t.clients c).reporter.channel = (s.clients c).reporter.channel
  locks : t.registry.locks = s.registry.locks

structure ShutDown (s : World) (c : Nat) : Prop where
  isShutdown : (s.clients c).isShutdown = true
  flag : FlagInv s c
  gate : GateInv s.protocol

section
variable {s t : World} {i c : Nat} {act : WorldAct} {env : Env}

theorem gateInv_step (h : GateInv s.protocol) (hs : s.step act = some t) : GateInv t.protocol := by
  obtain ⟨i, l, hm, -⟩ := world_refines hs
  exact h.move hm

theorem ShutDown.step (h : ShutDown s c) (hs : s.step act = some t) : ShutDown t c :=
  ⟨isShutdown_step hs h.isShutdown, h.flag.step hs, gateInv_step h.gate hs⟩

theorem ShutDown.idle (h : ShutDown s c) : (s.clients c).reporter.sender = false ∧
    (s.clients c).reporter.call = none ∧ (s.clients c).caller = none := by
  have hsend := h.flag.closed h.isShutdown
  have hcall := h.flag.counted.2.closed hsend
  exact ⟨hsend, hcall, h.flag.caller hcall⟩

theorem sameStore_setCall (s : World) (i : Nat) (k : Call) : SameStore s (s.setCall i k) :=
  ⟨rfl, rfl, rfl, rfl, fun _ => rfl, rfl⟩

theorem ShutDown.report (h : ShutDown s c) {run : NativeRun} {key : MetricKey} {n : Int} {v : F64}
    (hk : s.calls i = .logMetricAtStep run key n v .report) (hc : run.client = c) (env : Env) :
    ∃ t, s.step (.go i env) = some t ∧ SameStore s t ∧
      t.calls = Function.update s.calls i (.returned (.error .clientClosed)) ∧
      t.registry = s.registry.setGate run.activeRun none := by
  subst hc
  obtain ⟨hsend, hcall, hcaller⟩ := h.idle
  have hstep : s.step (.go i env) = some ((s.setReporter run.client ((s.clients run.client).reporter.returns
      (.error .clientClosed))).leaveGate i run (some (.error .clientClosed))) := by
    simp [World.step, hk, World.callStep, World.logMetricAtStepStep, hcaller, Reporter.step, Reporter.reportMetric,
      hcall, hsend, Reporter.returns]
  refine ⟨_, hstep, ⟨rfl, rfl, rfl, rfl, fun d => ?_, rfl⟩, rfl, rfl⟩
  show ((s.setReporter run.client _).clients d).reporter.channel = _
  unfold World.setReporter
  by_cases hd : d = run.client
  · subst hd; rw [setClient_self]; rfl
  · rw [setClient_others _ _ _ hd]

theorem ShutDown.refuses (h : ShutDown s c) (hk : (s.calls i).refused s c) (hs : s.step (.go i env) = some t) :
    SameStore s t ∧ (t.calls i).refused t c := by
  have hflag := h.isShutdown
  have hret : ∀ e, SameStore s (s.returns i (.error e)) ∧ ((s.returns i (.error e)).calls i).refused
    (s.returns i (.error e)) c := by
    intro e
    rw [show (s.returns i (.error e)).calls i = .returned (.error e) from Function.update_self ..]
    exact ⟨sameStore_setCall s i _, trivial⟩
  have hstep := hs
  simp only [World.step] at hs
  cases hc : s.calls i with
  | createProject d p name pc =>
    rw [hc] at hk hs
    cases pc with
    | ensureWriteable =>
      cases hk
      simp only [World.callStep, World.createProjectStep, hflag, ite_true, Option.some.injEq] at hs
      rw [← hs]; exact hret _
    | _ => exact absurd hk (by simp [Call.refused])
  | createRun d p name r pc =>
    rw [hc] at hk hs
    cases pc with
    | ensureWriteable =>
      cases hk
      simp only [World.callStep, World.createRunStep, hflag, ite_true, Option.some.injEq] at hs
      rw [← hs]; exact hret _
    | _ => exact absurd hk (by simp [Call.refused])
  | resumeRun d r pc =>
    rw [hc] at hk hs
    cases pc with
    | ensureWriteable =>
      cases hk
      simp only [World.callStep, World.resumeRunStep, hflag, ite_true, Option.some.injEq] at hs
      rw [← hs]; exact hret _
    | _ => exact absurd hk (by simp [Call.refused])
  | finalizeRun d r target pc =>
    rw [hc] at hk hs
    cases pc with
    | ensureWriteable =>
      cases hk
      simp only [World.callStep, World.finalizeRunStep, hflag, ite_true, Option.some.injEq] at hs
      rw [← hs]; exact hret _
    | _ => exact absurd hk (by simp [Call.refused])
  | flushRunData d r pc =>
    rw [hc] at hk hs
    cases pc with
    | ensureWriteable =>
      cases hk
      simp only [World.callStep, World.flushRunDataStep, hflag, ite_true, Option.some.injEq] at hs
      rw [← hs]; exact hret _
    | _ => exact absurd hk (by simp [Call.refused])
  | logMetricAtStep run key n v pc =>
    rw [hc] at hk hs
    obtain ⟨hcl, hmem⟩ := hk
    cases pc with
    | enter =>
      simp only [World.callStep, World.logMetricAtStepStep] at hs
      repeat' split at hs
      · cases hs
      · cases hs
        refine ⟨⟨rfl, rfl, rfl, rfl, fun _ => rfl, rfl⟩, ?_⟩
        rw [show (World.setCall _ i _).calls i = _ from Function.update_self ..]
        exact ⟨hcl, hmem⟩
      · cases hs; exact hret _
    | report =>
      obtain ⟨t', hgo, hsame, hcalls, -⟩ := h.report hc hcl env
      rw [hstep] at hgo
      cases hgo
      rw [hcalls, Function.update_self]
      exact ⟨hsame, trivial⟩
  | idle => rw [hc] at hs; cases hs
  | returned => rw [hc] at hs; cases hs
  | shutdown d pc => rw [hc] at hk; cases hk

theorem refused_kept (hs : s.step act = some t) {k : Call} (hk : k.refused s c) : k.refused t c := by
  obtain ⟨i, l, hm, -⟩ := world_refines hs
  cases k with
  | logMetricAtStep run key n v pc => exact ⟨hk.1, handles_kept hm hk.2⟩
  | createProject _ _ _ pc => cases pc <;> exact hk
  | createRun _ _ _ _ pc => cases pc <;> exact hk
  | resumeRun _ _ pc => cases pc <;> exact hk
  | finalizeRun _ _ _ pc => cases pc <;> exact hk
  | flushRunData _ _ pc => cases pc <;> exact hk
  | returned result => cases result <;> exact hk
  | idle | shutdown => exact hk

theorem ShutDown.refused_step (h : ShutDown s c) (hk : (s.calls i).refused s c) (hs : s.step act = some t)
    (hact : ∀ request, act ≠ .start i request) : (t.calls i).refused t c := by
  rcases calls_step hs i with e | ⟨request, rfl, -⟩ | ⟨env, rfl, -⟩
  · rw [e]; exact refused_kept hs hk
  · exact absurd rfl (hact request)
  · exact (h.refuses hk hs).2

theorem thread_logging {k : Call} {run : NativeRun} (h : k.thread = .logging run) :
    ∃ key n v, k = .logMetricAtStep run key n v .report := by
  cases k.threaded with
  | idle e | shutdown e => rw [e] at h; cases h
  | create _ _ _ _ pc => cases pc <;> cases h
  | finalize _ _ _ pc => cases pc <;> cases h
  | log run key n v => cases h; exact ⟨key, n, v, rfl⟩

/-- The call can go on and return an error. -/
def World.fails (s : World) (i : Nat) : Prop :=
  ∃ acts t e, exec World.step s acts = some t ∧ t.calls i = .returned (.error e)

theorem fails_here {e : EngineError} (hs : s.calls i = .returned (.error e)) : s.fails i := ⟨[], s, e, rfl, hs⟩

theorem fails_step (hs : s.step act = some t) (h : t.fails i) : s.fails i := by
  obtain ⟨acts, u, e, hu, hc⟩ := h
  exact ⟨act :: acts, u, e, (exec_cons _).mpr ⟨t, hs, hu⟩, hc⟩

theorem ShutDown.fails_free (h : ShutDown s c) {run : NativeRun} {key : MetricKey} {n : Int} {v : F64}
    (hk : s.calls i = .logMetricAtStep run key n v .enter) (hc : run.client = c) (hmem : run ∈ s.registry.handles)
    (hgate : (s.registry.active run.activeRun).gate = none) : s.fails i := by
  by_cases hadm : (s.registry.active run.activeRun).admission = .opened
  · have hs : s.step (.go i {}) = some ((s.setRegistry (s.registry.setGate run.activeRun (some i))).setCall i
        (.logMetricAtStep run key n v .report)) := by
      simp [World.step, hk, World.callStep, World.logMetricAtStepStep, hmem, hgate, hadm]
    refine fails_step hs ?_
    obtain ⟨t, ht, -, hcalls, -⟩ := (h.step hs).report (Function.update_self ..) hc {}
    exact fails_step ht (fails_here (by rw [hcalls, Function.update_self]))
  · have hs : s.step (.go i {}) = some (s.returns i (.error (.runClosed run.runId))) := by
      cases hx : (s.registry.active run.activeRun).admission with
      | opened => exact absurd hx hadm
      | _ => simp [World.step, hk, World.callStep, World.logMetricAtStepStep, hmem, hgate, hx]
    exact fails_step hs (fails_here (Function.update_self ..))

/-- A refused call returns its error: at most another log call, which holds the
gate, has to return before. -/
theorem ShutDown.fails (h : ShutDown s c) (hk : (s.calls i).refused s c) : s.fails i := by
  have hflag := h.isShutdown
  have hclosed : s.step (.go i {}) = some (s.returns i (.error .clientClosed)) → s.fails i :=
    fun hs => fails_step hs (fails_here (Function.update_self ..))
  cases hc : s.calls i with
  | createProject d p name pc =>
    rw [hc] at hk
    cases pc with
    | ensureWriteable =>
      cases hk
      exact hclosed (by simp [World.step, hc, World.callStep, World.createProjectStep, hflag])
    | _ => exact absurd hk (by simp [Call.refused])
  | createRun d p name r pc =>
    rw [hc] at hk
    cases pc with
    | ensureWriteable =>
      cases hk
      exact hclosed (by simp [World.step, hc, World.callStep, World.createRunStep, hflag])
    | _ => exact absurd hk (by simp [Call.refused])
  | resumeRun d r pc =>
    rw [hc] at hk
    cases pc with
    | ensureWriteable =>
      cases hk
      exact hclosed (by simp [World.step, hc, World.callStep, World.resumeRunStep, hflag])
    | _ => exact absurd hk (by simp [Call.refused])
  | finalizeRun d r target pc =>
    rw [hc] at hk
    cases pc with
    | ensureWriteable =>
      cases hk
      exact hclosed (by simp [World.step, hc, World.callStep, World.finalizeRunStep, hflag])
    | _ => exact absurd hk (by simp [Call.refused])
  | flushRunData d r pc =>
    rw [hc] at hk
    cases pc with
    | ensureWriteable =>
      cases hk
      exact hclosed (by simp [World.step, hc, World.callStep, World.flushRunDataStep, hflag])
    | _ => exact absurd hk (by simp [Call.refused])
  | logMetricAtStep run key n v pc =>
    rw [hc] at hk
    obtain ⟨hcl, hmem⟩ := hk
    cases pc with
    | report =>
      obtain ⟨t, ht, -, hcalls, -⟩ := h.report hc hcl {}
      exact fails_step ht (fails_here (by rw [hcalls, Function.update_self]))
    | enter =>
      cases hg : (s.registry.active run.activeRun).gate with
      | none => exact h.fails_free hc hcl hmem hg
      | some j =>
        -- the call that holds the gate is on the same client and returns
        obtain ⟨other, hlog, hact⟩ := h.gate.gated _ j hg
        obtain ⟨key', n', v', hj⟩ := thread_logging hlog
        have hclient : other.client = c := by
          rw [← (h.gate.handled other (h.gate.logging j other hlog)).1.1, hact, (h.gate.handled run hmem).1.1, hcl]
        obtain ⟨t, ht, -, hcalls, hreg⟩ := h.report hj hclient {}
        have hij : i ≠ j := by rintro rfl; rw [hc] at hj; cases hj
        refine fails_step ht
          ((h.step ht).fails_free (by rw [hcalls, Function.update_of_ne hij]; exact hc) hcl ?_ ?_)
        · rw [hreg]; exact hmem
        · rw [hreg, hact, Registry.setGate_active, if_pos rfl]
  | returned result =>
    rw [hc] at hk
    cases result with
    | ok => cases hk
    | error e => exact fails_here hc
  | idle | shutdown => rw [hc] at hk; cases hk

end

/-! ## Inert clients -/

/-- Call `i` of the state `t` was started after `s` on client `c`, through a handle there was if it logs. -/
def LaterCall (s : World) (c i : Nat) (t : World) : Prop :=
  ∃ request acts u v rest, request.call.client = some c ∧ request.call.shuts = none ∧
    exec World.step s acts = some u ∧
    (∀ run key n x, request = .logMetricAtStep run key n x → run ∈ u.registry.handles) ∧
    u.step (.start i request) = some v ∧ exec World.step v rest = some t ∧ ∀ request', .start i request' ∉ rest

/-- Calls started on the client from here on return errors, store nothing and
take no lock, and its worker writes nothing when no shutdown is under way. -/
structure Inert (s : World) (c : Nat) : Prop where
  stores : ∀ i t, LaterCall s c i t → ∀ env u, t.step (.go i env) = some u → SameStore t u
  refuses : ∀ i t, LaterCall s c i t → ∀ result, t.calls i = .returned result → ∃ e, result = .error e
  returns : ∀ i t, LaterCall s c i t → t.fails i
  writes : (∀ i, (s.calls i).shuts ≠ some c) → ∀ acts t act u, exec World.step s acts = some t →
    t.step (.work c act) = some u → u.points = t.points

section
variable {s t : World} {i c : Nat} {act : WorldAct} {env : Env}

theorem exec_shutDown {acts : List WorldAct} (hs : exec World.step s acts = some t) (h : ShutDown s c) :
    ShutDown t c :=
  exec_inv_all World.step (I := fun s => ShutDown s c) (fun _ _ _ hs hi => hi.step hs) hs h

theorem ShutDown.later (h : ShutDown s c) (hl : LaterCall s c i t) : ShutDown t c ∧ (t.calls i).refused t c := by
  obtain ⟨request, acts, u, v, rest, hcl, hsh, hu, hmem, hv, ht, hrest⟩ := hl
  have hdown := (exec_shutDown hu h).step hv
  have hstart : (v.calls i).refused v c := by
    simp only [World.step] at hv
    split at hv
    · cases hv
    · cases hv
      rw [show (u.setCall i request.call).calls i = request.call from Function.update_self ..]
      cases request with
      | logMetricAtStep run key n x => exact ⟨Option.some.inj hcl, hmem run key n x rfl⟩
      | shutdown => cases hsh
      | _ => exact Option.some.inj hcl
  refine exec_inv World.step (C := fun _ act => ∀ request', act ≠ .start i request')
    (I := fun s => ShutDown s c ∧ (s.calls i).refused s c) ?_ ?_ ht ⟨hdown, hstart⟩
  · intro s act t hact hs hi
    exact ⟨hi.1.step hs, hi.1.refused_step hi.2 hs hact⟩
  · refine meets_of_forall World.step (fun _ act hmem request' e => ?_) v
    rw [e] at hmem; exact hrest request' hmem

theorem ShutDown.inert (h : ShutDown s c) (hj : JoinInv s c) : Inert s c := by
  refine ⟨fun i t hl env u hu => ?_, fun i t hl result hr => ?_, fun i t hl => ?_, fun hn acts t act u ht hu => ?_⟩
  · obtain ⟨hdown, hk⟩ := h.later hl
    exact (hdown.refuses hk hu).1
  · have hk := (h.later hl).2
    rw [hr] at hk
    cases result with
    | ok => cases hk
    | error e => exact ⟨e, rfl⟩
  · obtain ⟨hdown, hk⟩ := h.later hl
    exact hdown.fails hk
  · -- the worker has been joined
    have hx : (s.clients c).reporter.worker.hasExited = true := by
      rcases hj.joined (hj.closed h.isShutdown) with hx | ⟨j, result, hc⟩
      · exact hx
      · exact absurd (by rw [hc]; rfl) (hn j)
    have hx' : (t.clients c).reporter.worker.hasExited = true :=
      exec_inv_all World.step (I := fun s => (s.clients c).reporter.worker.hasExited = true)
        (fun _ _ _ hs hi => exited_step hs hi) ht hx
    simp only [World.step, World.workStep] at hu
    split at hu
    · cases hu
    · obtain ⟨r, hr, -⟩ := Option.map_eq_some_iff.mp hu
      have := workerMove_alive (workerMove_of_step (s := (t.clients c).reporter) hr)
      rw [hx'] at this; cases this

theorem connection_freed (h : Connected s) (c : Nat) : ∃ acts t, exec World.step s acts = some t ∧
    (t.clients c).connection = none ∧ (t.clients c).isShutdown = (s.clients c).isShutdown := by
  have hfree : ∀ j k, s.step (.go j { fails := true }) = some ((s.setConnection c none).setCall j k) →
      ∃ acts t, exec World.step s acts = some t ∧
        (t.clients c).connection = none ∧ (t.clients c).isShutdown = (s.clients c).isShutdown := by
    intro j k hs
    refine ⟨[.go j { fails := true }], _, (exec_cons _).mpr ⟨_, hs, rfl⟩, ?_, ?_⟩
    · show ((s.setConnection c none).clients c).connection = none
      rw [setConnection_connection, if_pos rfl]
    · show ((s.setClient c { s.clients c with connection := none }).clients c).isShutdown = _
      rw [setClient_self]
  cases hc : (s.clients c).connection with
  | none => exact ⟨[], s, rfl, hc, rfl⟩
  | some j =>
    have hj := (h c j).mp hc
    cases hk : s.calls j with
    | createRun d p name r pc =>
      rw [hk] at hj
      cases pc with
      | insertRun a =>
        cases hj
        exact hfree j _ (by simp [World.step, hk, World.callStep, World.createRunStep]; rfl)
      | _ => cases hj
    | finalizeRun d r target pc =>
      rw [hk] at hj
      cases pc with
      | insertAggregates a =>
        cases hj
        exact hfree j _ (by simp [World.step, hk, World.callStep, World.finalizeRunStep]; rfl)
      | _ => cases hj
    | _ => rw [hk] at hj; cases hj

theorem idle_step {n : Nat} (hs : s.step act = some t) (h : ∀ j, n ≤ j → s.calls j = .idle) :
    ∃ m, ∀ j, m ≤ j → t.calls j = .idle := by
  refine ⟨max n ((act.thread.getD 0) + 1), fun j hj => ?_⟩
  rcases calls_step hs j with e | ⟨request, rfl, -⟩ | ⟨env, rfl, -⟩
  · rw [e]; exact h j (by omega)
  · simp only [WorldAct.thread, Option.getD_some] at hj; omega
  · simp only [WorldAct.thread, Option.getD_some] at hj; omega

theorem exists_fresh (projects : List Project) : ∃ p : ProjectId, p ∉ projects.map Project.projectId := by
  have : Infinite String := by
    refine Infinite.of_injective (fun n => String.ofList (List.replicate n 'p')) fun n m h => ?_
    have := congrArg (fun s => s.toList.length) h
    simpa using this
  obtain ⟨p, hp⟩ := Infinite.exists_notMem_finset ((projects.map Project.projectId).toFinset)
  exact ⟨p, by simpa using hp⟩

/-- A project is created on a client without the flag. -/
theorem creates_unless_closed (hsd : (s.clients c).isShutdown = false) (hconn : (s.clients c).connection = none)
    (hidle : s.calls i = .idle) {p : ProjectId} (hp : p ∉ s.projects.map Project.projectId) :
    ∃ v t, s.step (.start i (.createProject c p "")) = some v ∧
      exec World.step v (List.replicate 4 (.go i {})) = some t ∧
      t.calls i = .returned (.ok none) := by
  have hnew : ¬ ∃ x ∈ s.projects, x.projectId = p := by simpa using hp
  refine ⟨s.setCall i (.createProject c p "" .ensureWriteable),
    World.returns { s with projects := s.projects ++ [(⟨p, "", 0⟩ : Project)] } i (.ok none), ?_, ?_,
      Function.update_self ..⟩
  · simp [World.step, hidle, Call.busy, Request.call]
  · simp [exec, List.replicate, World.step, World.callStep, World.createProjectStep, World.setCall, World.returns,
      World.projectExists, hsd, hconn, hnew]

end

theorem gateInv_init (projects : List Project) (runs : List Run) (capacity : Nat → Nat) :
    GateInv (World.init projects runs capacity).protocol := ⟨⟨nofun, nofun⟩, nofun, nofun, nofun⟩

/-- In every reachable state a client is inert exactly if its flag is set, and a
shutdown sets the flag exactly if it returns `Ok`. -/
theorem inert_iff {projects : List Project} {runs : List Run} {capacity : Nat → Nat}
    {acts : List WorldAct} {s : World}
    (h : exec World.step (World.init projects runs capacity) acts = some s) (c : Nat) :
    (Inert s c ↔ (s.clients c).isShutdown = true) ∧
      ∀ i pc env t, s.calls i = .shutdown c pc → s.step (.go i env) = some t →
        (t.clients c).isShutdown = ((s.clients c).isShutdown || (t.calls i).isOk) := by
  refine ⟨⟨fun hinert => ?_, fun hsd => ?_⟩, fun i pc env t hk hs => (shutdown_go hk hs).1⟩
  · by_contra hsd
    -- some thread is idle, and the connection can be had
    have hidle : ∃ n, ∀ j, n ≤ j → s.calls j = .idle :=
      exec_inv_all World.step (I := fun s => ∃ n, ∀ j, n ≤ j → s.calls j = .idle)
        (fun _ _ _ hs ⟨n, hn⟩ => idle_step hs hn) h ⟨0, fun _ _ => rfl⟩
    have hconn : Connected s := exec_inv_all World.step (fun _ _ _ hs hi => hi.step hs) h (connected_init _ _ _)
    obtain ⟨free, u, hu, hfree, hflag⟩ := connection_freed hconn c
    obtain ⟨n, hn⟩ : ∃ n, ∀ j, n ≤ j → u.calls j = .idle :=
      exec_inv_all World.step (I := fun s => ∃ n, ∀ j, n ≤ j → s.calls j = .idle)
        (fun _ _ _ hs ⟨n, hn⟩ => idle_step hs hn) hu hidle
    obtain ⟨p, hp⟩ := exists_fresh u.projects
    obtain ⟨v, t, hv, ht, hok⟩ :=
      creates_unless_closed (by rw [hflag]; simpa using hsd) hfree (hn n (Nat.le_refl n)) hp
    obtain ⟨e, he⟩ := hinert.refuses n t
      ⟨.createProject c p "", free, u, v, _, rfl, rfl, hu, by simp, hv, ht, by simp⟩ _ hok
    cases he
  · have hshut : FlagInv s c :=
      exec_inv_all World.step (I := fun s => FlagInv s c) (fun _ _ _ hs hi => hi.step hs) h (flagInv_init _ _ _ c)
    have hgate : GateInv s.protocol :=
      exec_inv_all World.step (I := fun s => GateInv s.protocol) (fun _ _ _ hs hi => gateInv_step hi hs) h
        (gateInv_init _ _ _)
    have hjoin : JoinInv s c :=
      exec_inv_all World.step (I := fun s => JoinInv s c) (fun _ _ _ hs hi => hi.step hs) h (joinInv_init ..)
    exact ShutDown.inert ⟨hsd, hshut, hgate⟩ hjoin

/-- A client with a run is shut down. -/
def quietShutdown : List WorldAct := List.flatten
  [createActs, [.start 2 (.shutdown 0)], List.replicate 6 (.go 2 {}), [.work 0 (.readClock 0), .work 0 .go],
    List.replicate 5 (.go 2 {})]

theorem inert_iff_run : ∃ s, exec World.step (World.init [⟨"p", "p", 0⟩] [] fun _ => 1) quietShutdown = some s ∧
    s.calls 2 = .returned (.ok none) ∧ Inert s 0 := by
  obtain ⟨s, h, hok, hflag⟩ : ∃ s,
      exec World.step (World.init [⟨"p", "p", 0⟩] [] fun _ => 1) quietShutdown = some s ∧
      s.calls 2 = .returned (.ok none) ∧ (s.clients 0).isShutdown = true := ⟨_, rfl, rfl, rfl⟩
  exact ⟨s, h, hok, (inert_iff h 0).1.mpr hflag⟩

/-- The worker gives up on the report of thread 1, and thread 2 shuts the client down. -/
def failedShutdown : List WorldAct := List.flatten
  [createActs, [.start 1 (.logMetricAtStep handleR "k" 0 ⟨0⟩)], List.replicate 7 (.go 1 {}),
    [.work 0 (.readClock 0), .work 0 .go, .work 0 .go, .work 0 .timeout],
    (List.replicate 5 [.work 0 (.writeFail 0 0 "io"), .work 0 .go, .work 0 .go]).flatten,
    .work 0 (.writeFail 0 0 "io") :: List.replicate 4 (.work 0 .go),
    [.start 2 (.shutdown 0)], List.replicate 8 (.go 2 {})]

/-- A client whose shutdown has found the writer failed still creates projects. -/
theorem writes_after_failed_shutdown : ¬ ∀ projects runs capacity acts s i c pc env t result,
    exec World.step (World.init projects runs capacity) acts = some s → s.calls i = .shutdown c pc →
      s.step (.go i env) = some t → t.calls i = .returned result → result ≠ .error .metricDrainTimeout →
        Inert t c := by
  intro hall
  obtain ⟨s, t, v, w, hs, hk, hst, hret, hv, hw, hok⟩ : ∃ s t v w,
      exec World.step (World.init [⟨"p", "p", 0⟩] [] fun _ => 1) failedShutdown = some s ∧
        s.calls 2 = .shutdown 0 (.releaseAll (.error (.metricWriterFailed "io"))) ∧
        s.step (.go 2 {}) = some t ∧ t.calls 2 = .returned (.error (.metricWriterFailed "io")) ∧
        t.step (.start 3 (.createProject 0 "q" "n")) = some v ∧
        exec World.step v (List.replicate 4 (.go 3 {})) = some w ∧ w.calls 3 = .returned (.ok none) :=
    ⟨_, _, _, _, rfl, rfl, rfl, rfl, rfl, rfl, rfl⟩
  have hinert := hall _ _ _ _ s 2 0 _ {} t _ hs hk hst hret (by simp)
  obtain ⟨e, he⟩ :=
    hinert.refuses 3 w ⟨.createProject 0 "q" "n", [], t, v, _, rfl, rfl, rfl, by simp, hv, hw, by simp⟩ _ hok
  cases he

end Pulseon
