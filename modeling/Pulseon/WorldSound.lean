import Pulseon.RunProtocol
import Pulseon.ShutdownSound

/-!
# The clients follow the protocol of run writers

Every step of the world is at most one step of the protocol, by the thread of
the call that takes it.
-/

namespace Pulseon

/-! ## The world as a protocol state -/

/-- A shutdown that has taken the sender, and has not run into its timeout before. -/
def Shutdown.tearing : Shutdown → Bool
  | .drain _ | .takeSender _ | .done (.error .metricDrainTimeout) => false
  | _ => true

def Call.thread : Call → Thread
  | .createRun c _ _ r pc =>
    match pc with
    | .ensureWriteable | .projectExists | .getRun => .idle
    | .acquire => .creating c r
    | .runExists a => .checking c r a
    | .insertRun a => .inserting c r a
    | .releaseWriter a _ => .undoing c r a
    | .releaseLock a _ => .undone c r a
  | .finalizeRun c r _ pc =>
    match pc with
    | .ensureWriteable | .getRun | .acquire => .finalizing c r
    | .closeAdmission a | .drain a _ | .deleteAggregates a | .insertAggregates a => .using c r a
    | .readClock a | .markRun a _ | .getRunAgain a | .openAdmission a _ => .using c r a
    | .markTerminal a => .marked c r a
    | .releaseLock a => .closing c r a
    | .releaseWriter a => .released c r a
    | .flushEnsureWriteable | .flushGetRun | .flush | .getFinished => .idle
  | .logMetricAtStep run _ _ _ pc =>
    match pc with
    | .enter => .idle
    | .report => .logging run
  | .shutdown c pc =>
    match pc with
    | .reporter d => if d.tearing then .tearing c else .idle
    | .releaseAll _ => .tearing c
    | .store => .idle
  | .idle | .createProject _ _ _ _ | .resumeRun _ _ _ | .flushRunData _ _ _ | .returned _ => .idle

def World.protocol (s : World) : Protocol where
  registry := s.registry
  runs := s.runs
  torn c := !(s.clients c).reporter.sender
  threads i := (s.calls i).thread

def Call.client : Call → Option Nat
  | .createProject c _ _ _ | .createRun c _ _ _ _ | .resumeRun c _ _ | .finalizeRun c _ _ _ => some c
  | .flushRunData c _ _ | .shutdown c _ => some c
  | .logMetricAtStep run _ _ _ _ => some run.client
  | .idle | .returned _ => none

/-- The client and the run of a call about to run `acquire_run_writer`. -/
def Call.acquires : Call → Option (Nat × RunId)
  | .createRun c _ _ r .acquire | .resumeRun c r (.acquire _) | .finalizeRun c r _ .acquire => some (c, r)
  | _ => none

/-- The step of the protocol is one of the call, whose file operations may fail. -/
structure ProtocolAct.By (k : Call) (fails : Bool) (l : ProtocolAct) : Prop where
  client : ∀ c, l.client = some c → k.client = some c
  acquires : ∀ c r, l = .register c r → k.acquires = some (c, r) ∧ fails = false
  shares : ∀ c r, l = .share c r → k.acquires = some (c, r)
  reopens : ∀ c r, l = .reopen c r → ∃ target a e, k = .finalizeRun c r target (.openAdmission a e)
  begins : ∀ c r, l ≠ .begin c r
  handles : ∀ c r, l ≠ .handle c r

/-! ## Calls by their threads -/

/-- The calls by what the protocol sees of them. -/
inductive Call.Threaded : Call → Prop
  | idle {k : Call} : k.thread = .idle → Threaded k
  | create (c projectId name r pc) : Threaded (.createRun c projectId name r pc)
  | finalize (c r target pc) : Threaded (.finalizeRun c r target pc)
  | log (run key n v) : Threaded (.logMetricAtStep run key n v .report)
  | shutdown {c pc} : (Call.shutdown c pc).thread = .tearing c → Threaded (.shutdown c pc)

theorem Call.threaded (k : Call) : k.Threaded := by
  cases k with
  | createRun => exact .create ..
  | finalizeRun => exact .finalize ..
  | logMetricAtStep run key n v pc =>
    cases pc with
    | enter => exact .idle rfl
    | report => exact .log ..
  | shutdown c pc =>
    cases pc with
    | reporter d =>
      by_cases h : d.tearing = true
      · exact .shutdown (by simp [Call.thread, h])
      · exact .idle (by simp [Call.thread, h])
    | releaseAll => exact .shutdown rfl
    | store => exact .idle rfl
  | idle | createProject | resumeRun | flushRunData | returned => exact .idle rfl

theorem thread_undoing {k : Call} {c a : Nat} {r : RunId} (h : k.thread = .undoing c r a) :
    ∃ projectId name e, k = .createRun c projectId name r (.releaseWriter a e) := by
  cases k.threaded with
  | idle e | shutdown e => rw [e] at h; cases h
  | create _ _ _ _ pc => cases pc <;> cases h; exact ⟨_, _, _, rfl⟩
  | finalize _ _ _ pc => cases pc <;> cases h
  | log => cases h

theorem thread_tearing {k : Call} {c : Nat} (h : k.thread = .tearing c) : ∃ pc, k = .shutdown c pc := by
  cases k.threaded with
  | idle e => rw [e] at h; cases h
  | create _ _ _ _ pc => cases pc <;> cases h
  | finalize _ _ _ pc => cases pc <;> cases h
  | log => cases h
  | shutdown e => rw [e] at h; cases h; exact ⟨_, rfl⟩

section
variable (s : World) (i c : Nat)

@[simp] theorem protocol_setCall (k : Call) :
    (s.setCall i k).protocol = s.protocol.setThread i k.thread := by
  simp only [World.protocol, World.setCall, Protocol.setThread, Protocol.mk.injEq, true_and]
  funext j
  by_cases hj : j = i
  · subst hj; simp
  · simp [hj]

@[simp] theorem protocol_returns (result : Except EngineError (Option Run)) :
    (s.returns i result).protocol = s.protocol.setThread i .idle := protocol_setCall s i _

@[simp] theorem protocol_setRegistry (g : Registry) :
    (s.setRegistry g).protocol = s.protocol.setRegistry g := rfl

theorem protocol_setClient {client : Client}
    (h : client.reporter.sender = (s.clients c).reporter.sender) :
    (s.setClient c client).protocol = s.protocol := by
  simp only [World.protocol, World.setClient, Protocol.mk.injEq, true_and, and_true]
  funext d
  by_cases hd : d = c
  · subst hd; simp [h]
  · simp [hd]

@[simp] theorem protocol_setConnection (holder : Option Nat) :
    (s.setConnection c holder).protocol = s.protocol := protocol_setClient s c rfl

end

theorem setThread_self {p : Protocol} {i : Nat} {th : Thread} (h : p.threads i = th) :
    p.setThread i th = p := by
  subst h
  unfold Protocol.setThread
  rw [Function.update_eq_self]

theorem stay_setCall {s : World} {i : Nat} {k : Call} (h : k.thread = (s.calls i).thread) :
    (s.setCall i k).protocol = s.protocol := by
  rw [protocol_setCall]; exact setThread_self h.symm

/-- Steps that are only constrained by the client they are taken on. -/
def ProtocolAct.plain : ProtocolAct → Bool
  | .share _ _ | .register _ _ | .reopen _ _ | .begin _ _ | .handle _ _ => false
  | _ => true

theorem by_plain {k : Call} {fails : Bool} {l : ProtocolAct} (hp : l.plain = true)
    (hc : ∀ c, l.client = some c → k.client = some c) : l.By k fails where
  client := hc
  acquires := fun c r e => by rw [e] at hp; cases hp
  shares := fun c r e => by rw [e] at hp; cases hp
  reopens := fun c r e => by rw [e] at hp; cases hp
  begins := fun c r e => by rw [e] at hp; cases hp
  handles := fun c r e => by rw [e] at hp; cases hp

/-! ## Reads and the registry -/

theorem getRun_ok {s : World} {r : RunId} {fails : Bool} {run : Run} (h : s.getRun r fails = .ok run) :
    s.runs.find? (fun run => run.runId == r) = some run := by
  unfold World.getRun at h
  split at h
  · cases h
  · split at h
    · rename_i hf; cases h; exact hf
    · cases h

theorem getRun_notFound {s : World} {r r' : RunId} {fails : Bool}
    (h : s.getRun r fails = .error (.runNotFound r')) : s.protocol.status r = none := by
  unfold World.getRun at h
  split at h
  · cases h
  · split at h
    · cases h
    · rename_i hf
      show (s.runs.find? _).map _ = none
      rw [hf]; rfl

theorem acquireRunWriter_ok {g g' : Registry} {c a : Nat} {r : RunId} {fails : Bool}
    (h : g.acquireRunWriter c r fails = .ok (g', a)) :
    (g.activeRuns c r = some a ∧ g' = g) ∨
      (g.activeRuns c r = none ∧ g.locks (lockFile r) = none ∧ fails = false ∧ a = g.fresh ∧
        g' = g.register c r) := by
  unfold Registry.acquireRunWriter at h
  split at h
  · rename_i ha; cases h; exact Or.inl ⟨ha, rfl⟩
  · rename_i ha
    split at h
    · cases h
    · rename_i hf
      split at h
      · cases h
      · rename_i hl; cases h; exact Or.inr ⟨ha, hl, by simpa using hf, rfl, rfl⟩

/-! ## Calls -/

section
variable {s t : World} {i c : Nat} {r : RunId} {env : Env}

/-- What a call's step is in the protocol. -/
def Refines (s : World) (i : Nat) (env : Env) (t : World) : Prop :=
  ∃ l, ProtocolMove s.protocol i l t.protocol ∧ l.By (s.calls i) env.fails

theorem refines_stay (h : t.protocol = s.protocol) : Refines s i env t :=
  ⟨.stay, h ▸ .stay, by_plain rfl fun _ e => by cases e⟩

theorem refines_return (hr : (s.calls i).thread.mayReturn = true) (h : t.protocol = s.protocol.setThread i .idle) :
    Refines s i env t :=
  ⟨.return, h ▸ .returns hr, by_plain rfl fun _ e => by cases e⟩

theorem refines_acquire {g : Registry} {a : Nat} {k : Nat → Call} (hk : (s.calls i).acquires = some (c, r))
    (hc : (s.calls i).client = some c) (hth : ∀ a, (s.calls i).thread.Acquires c r a (k a).thread)
    (h : s.registry.acquireRunWriter c r env.fails = .ok (g, a)) :
    Refines s i env ((s.setRegistry g).setCall i (k a)) := by
  rcases acquireRunWriter_ok h with ⟨ha, rfl⟩ | ⟨ha, hl, hf, rfl, rfl⟩
  · refine ⟨.share c r, ?_, ⟨?_, nofun, ?_, nofun, nofun, nofun⟩⟩
    · rw [protocol_setCall]
      exact .share ha (hth a)
    · intro _ e; cases e; exact hc
    · intro _ _ e; cases e; exact hk
  · refine ⟨.register c r, ?_, ⟨?_, ?_, nofun, nofun, nofun, nofun⟩⟩
    · rw [protocol_setCall]
      exact .register ha hl (hth _)
    · intro _ e; cases e; exact hc
    · intro _ _ e; cases e; exact ⟨hk, hf⟩

theorem createRun_refines {projectId : ProjectId} {name : String} {pc : CreatePc}
    (hk : s.calls i = .createRun c projectId name r pc)
    (h : s.createRunStep i c projectId name r env pc = some t) : Refines s i env t := by
  have hby : ∀ l : ProtocolAct, l.plain = true → l.client = some c → l.By (s.calls i) env.fails := fun l hp hl =>
    by_plain hp fun _ e => by rw [hk]; exact hl.symm.trans e
  have hthread : s.protocol.threads i = (Call.createRun c projectId name r pc).thread := by
    show (s.calls i).thread = _; rw [hk]
  cases pc with
  | ensureWriteable | projectExists =>
    simp only [World.createRunStep] at h
    have hstay : ∀ k : Call, k.thread = .idle → Refines s i env (s.setCall i k) := fun k hkt =>
      refines_stay (stay_setCall (by rw [hkt, hk]; rfl))
    repeat' split at h
    all_goals first | (cases h; exact hstay _ rfl) | cases h
  | getRun =>
    simp only [World.createRunStep] at h
    split at h
    · cases h
    · split at h
      · cases h; exact refines_stay (stay_setCall (by rw [hk]; rfl))
      · rename_i hnf
        cases h
        refine ⟨.absent c r, ?_, hby _ rfl rfl⟩
        rw [protocol_setCall]
        exact .absent hthread (getRun_notFound hnf)
      · cases h; exact refines_stay (stay_setCall (by rw [hk]; rfl))
  | acquire =>
    simp only [World.createRunStep] at h
    split at h
    · rename_i hacq
      cases h
      refine refines_acquire (k := fun a => .createRun c projectId name r (.runExists a)) ?_ ?_ ?_ hacq
      · rw [hk]; rfl
      · rw [hk]; rfl
      · rw [hk]; intro a; exact .create
    · cases h; exact refines_return (by rw [hk]; rfl) (protocol_returns ..)
  | runExists a =>
    simp only [World.createRunStep] at h
    have hundo : ∀ e, Refines s i env (s.setCall i (.createRun c projectId name r (.releaseWriter a e))) :=
      fun e => by
      refine ⟨.undo c r, ?_, hby _ rfl rfl⟩
      rw [protocol_setCall]
      exact .undo (Or.inl hthread)
    split at h
    · cases h
    · split at h
      · cases h; exact hundo _
      · split at h
        · cases h; exact hundo _
        · rename_i hno
          cases h
          refine ⟨.check c r, ?_, hby _ rfl rfl⟩
          rw [protocol_setCall, protocol_setConnection]
          refine .check hthread ?_
          have hnone : s.runs.find? (fun run => run.runId == r) = none := by
            rw [List.find?_eq_none]
            intro run hrun
            simp only [List.any_eq_true, not_exists, not_and] at hno
            exact hno run hrun
          show (s.runs.find? _).map _ = none
          rw [hnone]; rfl
  | insertRun a =>
    simp only [World.createRunStep] at h
    split at h
    · cases h
      refine ⟨.undo c r, ?_, hby _ rfl rfl⟩
      rw [protocol_setCall, protocol_setConnection]
      exact .undo (Or.inr hthread)
    · cases h
      refine ⟨.insert c r, ?_, hby _ rfl rfl⟩
      rw [protocol_returns]
      have hruns : ∀ run : Run, ({ s.setConnection c none with runs := s.runs ++ [run] } : World).protocol =
          { s.protocol with runs := s.runs ++ [run] } := fun run =>
        congrArg (fun p : Protocol => { p with runs := s.runs ++ [run] }) (protocol_setConnection s c none)
      rw [hruns]
      exact .insert hthread rfl rfl
  | releaseWriter a e =>
    cases h
    refine ⟨.undoWriter c r, ?_, hby _ rfl rfl⟩
    rw [protocol_setCall]
    exact .undoWriter hthread
  | releaseLock a e =>
    cases h
    refine ⟨.undoLock c r, ?_, hby _ rfl rfl⟩
    rw [protocol_returns]
    exact .undoLock hthread

theorem createProject_refines {projectId : ProjectId} {name : String} {pc : CreateProjectPc}
    (hk : s.calls i = .createProject c projectId name pc)
    (h : s.createProjectStep i c projectId name env pc = some t) : Refines s i env t := by
  have hstay : ∀ k : Call, k.thread = .idle → Refines s i env (s.setCall i k) := fun k hkt =>
    refines_stay (stay_setCall (by rw [hkt, hk]; rfl))
  cases pc with
  | insertProject createdAt =>
    simp only [World.createProjectStep] at h
    repeat' split at h
    · cases h
    · cases h; exact hstay _ rfl
    · cases h; exact refines_stay (stay_setCall (s := { s with projects := _ }) (by rw [hk]; rfl))
  | _ =>
    simp only [World.createProjectStep] at h
    repeat' split at h
    all_goals first | (cases h; exact hstay _ rfl) | cases h

theorem flushRunData_refines {pc : FlushPc} (hk : s.calls i = .flushRunData c r pc)
    (h : s.flushRunDataStep i c r env pc = some t) : Refines s i env t := by
  have hstay : ∀ k : Call, k.thread = .idle → Refines s i env (s.setCall i k) := fun k hkt =>
    refines_stay (stay_setCall (by rw [hkt, hk]; rfl))
  cases pc <;> simp only [World.flushRunDataStep] at h <;> repeat' split at h
  all_goals first | (cases h; exact hstay _ rfl) | cases h

theorem resumeRun_refines {pc : ResumePc} (hk : s.calls i = .resumeRun c r pc)
    (h : s.resumeRunStep i c r env pc = some t) : Refines s i env t := by
  have hstay : ∀ k : Call, k.thread = .idle → Refines s i env (s.setCall i k) := fun k hkt =>
    refines_stay (stay_setCall (by rw [hkt, hk]; rfl))
  cases pc with
  | ensureWriteable | getRun =>
    simp only [World.resumeRunStep] at h
    repeat' split at h
    all_goals first | (cases h; exact hstay _ rfl) | cases h
  | acquire run =>
    simp only [World.resumeRunStep] at h
    split at h
    · rename_i hacq
      cases h
      refine refines_acquire (k := fun _ => .returned (.ok (some run))) ?_ ?_ ?_ hacq
      · rw [hk]; rfl
      · rw [hk]; rfl
      · rw [hk]; intro a; exact .resume
    · cases h; exact hstay _ rfl

theorem finalizeRun_refines {target : TerminalStatus} {pc : FinalizePc}
    (hk : s.calls i = .finalizeRun c r target pc) (h : s.finalizeRunStep i c r target env pc = some t) :
    Refines s i env t := by
  have hby : ∀ l : ProtocolAct, l.plain = true → l.client = some c → l.By (s.calls i) env.fails := fun l hp hl =>
    by_plain hp fun _ e => by rw [hk]; exact hl.symm.trans e
  have hthread : s.protocol.threads i = (Call.finalizeRun c r target pc).thread := by
    show (s.calls i).thread = _; rw [hk]
  have hstay : ∀ k : Call, k.thread = (s.calls i).thread → Refines s i env (s.setCall i k) := fun k hkt =>
    refines_stay (stay_setCall hkt)
  have hreturn : (s.calls i).thread.mayReturn = true → ∀ result, Refines s i env (s.returns i result) :=
    fun hr result => refines_return hr (protocol_returns ..)
  cases pc with
  | ensureWriteable | getRun =>
    simp only [World.finalizeRunStep] at h
    repeat' split at h
    all_goals first
      | (cases h; exact hstay _ (by rw [hk]; rfl))
      | (cases h; exact hreturn (by rw [hk]; rfl) _)
      | cases h
  | acquire =>
    simp only [World.finalizeRunStep] at h
    split at h
    · rename_i hacq
      cases h
      refine refines_acquire (k := fun a => .finalizeRun c r target (.closeAdmission a)) ?_ ?_ ?_ hacq
      · rw [hk]; rfl
      · rw [hk]; rfl
      · rw [hk]; intro a; exact .finalize
    · cases h; exact hreturn (by rw [hk]; rfl) _
  | closeAdmission a =>
    simp only [World.finalizeRunStep] at h
    split at h
    · cases h
    · rename_i hg
      cases h
      refine ⟨.close c r, ?_, hby _ rfl rfl⟩
      rw [protocol_setCall, setThread_self]
      · exact .close hthread (Option.not_isSome_iff_eq_none.mp hg)
      · exact hthread
  | drain a d =>
    have hmoves : ∀ k : Call, k.thread = .using c r a → Refines s i env (s.setCall i k) := fun k hkt =>
      hstay k (by rw [hkt, hk]; rfl)
    simp only [World.finalizeRunStep] at h
    split at h
    · cases h; exact hmoves _ rfl
    · cases h; exact hmoves _ rfl
    · obtain ⟨d', -, rfl⟩ := Option.map_eq_some_iff.mp h
      exact hmoves _ rfl
  | deleteAggregates a =>
    simp only [World.finalizeRunStep] at h
    split at h
    · cases h
    · split at h
      · cases h; exact hstay _ (by rw [hk]; rfl)
      · cases h
        refine refines_stay ?_
        rw [protocol_setCall, protocol_setConnection]
        exact setThread_self hthread
  | insertAggregates a =>
    have hp := protocol_setConnection s c none
    simp only [World.finalizeRunStep] at h
    split at h
    · cases h
      refine refines_stay ?_
      rw [protocol_setCall, hp]
      exact setThread_self hthread
    · cases h
      refine refines_stay ?_
      rw [protocol_setCall]
      exact (congrArg (fun p : Protocol => p.setThread i (.using c r a)) hp).trans (setThread_self hthread)
  | readClock a | getRunAgain a =>
    simp only [World.finalizeRunStep] at h
    repeat' split at h
    all_goals first
      | (cases h; exact hstay _ (by rw [hk]; rfl))
      | (cases h; exact hreturn (by rw [hk]; rfl) _)
      | cases h
  | markRun a finishedAt =>
    simp only [World.finalizeRunStep] at h
    split at h
    · cases h
    · split at h
      · cases h; exact hreturn (by rw [hk]; rfl) _
      · split at h
        · rename_i hrun
          cases h
          refine ⟨.mark c r, ?_, hby _ rfl rfl⟩
          rw [protocol_setCall]
          have hex : ∃ run ∈ s.runs, run.runId = r ∧ run.status = .running := by
            simpa [World.runsRunning] using hrun
          exact .mark hthread hex
        · cases h; exact hstay _ (by rw [hk]; rfl)
  | markTerminal a =>
    simp only [World.finalizeRunStep] at h
    split at h
    · cases h
    · rename_i hg
      cases h
      refine ⟨.markTerminal c r, ?_, hby _ rfl rfl⟩
      rw [protocol_setCall]
      exact .markTerminal hthread (Option.not_isSome_iff_eq_none.mp hg)
  | releaseLock a =>
    cases h
    refine ⟨.releaseLock c r, ?_, hby _ rfl rfl⟩
    rw [protocol_setCall]
    exact .releaseLock hthread
  | releaseWriter a =>
    cases h
    refine ⟨.releaseWriter c r, ?_, hby _ rfl rfl⟩
    rw [protocol_setCall]
    exact .releaseWriter hthread
  | flushEnsureWriteable | flushGetRun | flush | getFinished =>
    simp only [World.finalizeRunStep] at h
    repeat' split at h
    all_goals first
      | (cases h; exact hstay _ (by rw [hk]; rfl))
      | cases h
  | openAdmission a e =>
    simp only [World.finalizeRunStep] at h
    split at h
    · cases h
    · rename_i hg
      cases h
      refine ⟨.reopen c r, ?_, ⟨fun _ he => by rw [hk]; exact he, nofun, nofun, fun _ _ he => ?_, nofun, nofun⟩⟩
      rotate_left
      · cases he; exact ⟨_, _, _, hk⟩
      rw [protocol_returns]
      exact .reopen hthread (Option.not_isSome_iff_eq_none.mp hg)

theorem sender_step {r r' : Reporter} {act : ReporterAct} (hs : r.step act = some r') :
    r'.sender = (r.sender && decide (act ≠ .takeSender)) := by
  cases act with
  | report runId key n v =>
    simp only [Reporter.step, Reporter.reportMetric] at hs
    split at hs
    · cases hs
    · split at hs <;> (cases hs; simp [Reporter.returns])
  | call now =>
    obtain ⟨c, -, rfl⟩ := Option.map_eq_some_iff.mp hs
    unfold Reporter.callStep
    split <;> (try split) <;> (try split) <;> simp [Reporter.returns, Reporter.setPc]
  | work act =>
    rw [(workerMove_frame (workerMove_of_step (s := r) hs)).2.2.2.1]
    simp
  | takeSender =>
    simp only [Reporter.step] at hs
    split at hs
    · cases hs
    · cases hs; simp
  | takeWorker | setWriterClosed => cases hs; simp

theorem protocol_leaveGate {run : NativeRun} (outcome : Option (Except EngineError Unit)) :
    (s.leaveGate i run outcome).protocol =
      (s.protocol.setRegistry (s.registry.setGate run.activeRun none)).setThread i .idle := by
  unfold World.leaveGate
  rw [protocol_returns, protocol_setRegistry]

theorem logMetricAtStep_refines {run : NativeRun} {key : MetricKey} {n : Int} {v : F64} {pc : LogPc}
    (hk : s.calls i = .logMetricAtStep run key n v pc)
    (h : s.logMetricAtStepStep i run key n v env pc = some t) : Refines s i env t := by
  have hby : ∀ l : ProtocolAct, l.plain = true → l.client = some run.client → l.By (s.calls i) env.fails :=
    fun l hp hl =>
    by_plain hp fun _ e => by rw [hk]; exact hl.symm.trans e
  have hthread : s.protocol.threads i = (Call.logMetricAtStep run key n v pc).thread := by
    show (s.calls i).thread = _; rw [hk]
  cases pc with
  | enter =>
    simp only [World.logMetricAtStepStep] at h
    split at h
    · cases h
    · rename_i hg
      simp only [Bool.or_eq_true, decide_eq_true_eq, not_or, not_not] at hg
      split at h
      · rename_i hadm
        cases h
        refine ⟨.enter run, ?_, hby _ rfl rfl⟩
        rw [protocol_setCall]
        exact .enter hthread hg.1 (Option.not_isSome_iff_eq_none.mp hg.2) hadm
      · cases h
        exact refines_stay (stay_setCall (by rw [hk]; rfl))
  | report =>
    -- the reporter keeps its sender whatever the call does
    have hleave : ∀ client : Client, client.reporter.sender = (s.clients run.client).reporter.sender →
        ∀ outcome, Refines s i env ((s.setClient run.client client).leaveGate i run outcome) := by
      intro client hcl outcome
      refine ⟨.leave run, ?_, hby _ rfl rfl⟩
      rw [protocol_leaveGate, protocol_setClient s _ hcl]
      exact .leave hthread
    simp only [World.logMetricAtStepStep] at h
    split at h
    · obtain ⟨r, hr, rfl⟩ := Option.map_eq_some_iff.mp h
      have hsender := sender_step hr
      simp only [ne_eq, reduceCtorEq, not_false_eq_true, decide_true, Bool.and_true] at hsender
      split
      · exact refines_stay (protocol_setClient s _ hsender)
      · exact hleave _ hsender _
    · split at h
      · obtain ⟨r, hr, rfl⟩ := Option.map_eq_some_iff.mp h
        have hsender := sender_step hr
        simp only [ne_eq, reduceCtorEq, not_false_eq_true, decide_true, Bool.and_true] at hsender
        split
        · exact refines_stay (protocol_setClient s _ hsender)
        · exact hleave _ hsender _
      · cases h

theorem protocol_takeSender :
    (s.setReporter c { (s.clients c).reporter with sender := false }).protocol =
      { s.protocol with torn := Function.update s.protocol.torn c true } := by
  simp only [World.protocol, World.setReporter, World.setClient, Protocol.mk.injEq, true_and, and_true]
  funext d
  by_cases hd : d = c
  · subst hd; simp
  · simp [hd]

theorem shutdown_refines {pc : ShutdownPc} (hk : s.calls i = .shutdown c pc)
    (h : s.shutdownStep i c env pc = some t) : Refines s i env t := by
  have hby : ∀ l : ProtocolAct, l.plain = true → l.client = some c → l.By (s.calls i) env.fails := fun l hp hl =>
    by_plain hp fun _ e => by rw [hk]; exact hl.symm.trans e
  have hthread : s.protocol.threads i = (Call.shutdown c pc).thread := by
    show (s.calls i).thread = _; rw [hk]
  cases pc with
  | reporter d =>
    unfold World.shutdownStep at h
    split at h
    · rename_i he; cases he; cases h
      exact refines_stay (stay_setCall (by rw [hk]; rfl))
    · rename_i result hne he
      cases he; cases h
      refine refines_stay (stay_setCall ?_)
      rw [hk]
      cases result with
      | ok => rfl
      | error e =>
        have hne' : e ≠ .metricDrainTimeout := fun e' => hne (by rw [e'])
        cases e with
        | metricDrainTimeout => exact absurd rfl hne'
        | _ => rfl
    · rename_i d' hn1 hn2 he
      cases he
      obtain ⟨⟨r', d'⟩, hx, rfl⟩ := Option.map_eq_some_iff.mp h
      have hm := shutdownMove_of_step hx
      -- a step inside or outside of the teardown, that leaves the sender alone
      have hmove : ∀ e : Shutdown, r'.sender = (s.clients c).reporter.sender → e.tearing = d.tearing →
          Refines s i env ((s.setReporter c r').setCall i (.shutdown c (.reporter e))) := by
        intro e hsd ht
        refine refines_stay ?_
        unfold World.setReporter
        rw [protocol_setCall, protocol_setClient s c hsd]
        refine setThread_self (hthread.trans ?_)
        simp only [Call.thread, ht]
      have hjoined : ∀ result, d.tearing = true → r' = (s.clients c).reporter →
          Refines s i env ((s.setReporter c r').setCall i (.shutdown c (.reporter (.joined result)))) := by
        intro result ht hr
        by_cases hj : (Shutdown.joined result).tearing = true
        · exact hmove _ (by rw [hr]) (hj.trans ht.symm)
        · refine refines_return (by rw [hk]; simp only [Call.thread, ht]; rfl) ?_
          unfold World.setReporter
          rw [protocol_setCall, protocol_setClient s c (by rw [hr])]
          simp only [Call.thread, hj]; rfl
      generalize hd' : d' = e at hm ⊢
      cases hm with
      | drain | timeout | drained => exact hmove _ rfl rfl
      | takeSender =>
        refine ⟨.tear c, ?_, hby _ rfl rfl⟩
        rw [protocol_setCall, protocol_takeSender]
        exact .tear hthread
      | takeWorker => exact hmove _ rfl rfl
      | noWorker | join => exact hjoined _ rfl rfl
      | setClosed => exact hmove _ rfl rfl
    all_goals (rename_i he; cases he)
  | releaseAll result =>
    have hrel : ∀ k : Call, k.thread = .idle → Refines s i env
        ((s.setRegistry (s.registry.releaseAllRunWriters c)).setCall i k) := by
      intro k hkt
      refine ⟨.releaseAll c, ?_, hby _ rfl rfl⟩
      rw [protocol_setCall, hkt]
      exact .releaseAll hthread
    cases result with
    | ok => cases h; exact hrel _ rfl
    | error e => cases h; exact hrel _ rfl
  | store =>
    cases h
    refine refines_stay ?_
    rw [protocol_returns, protocol_setClient s c (by rfl)]
    exact setThread_self hthread

end

/-! ## Steps -/

def Request.finalizes : Request → Option (Nat × RunId)
  | .finishRun c r | .failRun c r => some (c, r)
  | _ => none

/-- How a step of the protocol comes from a step of the world. -/
inductive ProtocolAct.Of (s : World) (i : Nat) : WorldAct → ProtocolAct → Prop
  | start {request} : Of s i (.start i request) .stay
  | begins {request c r} : request.finalizes = some (c, r) → Of s i (.start i request) (.begin c r)
  | go {env l} : l.By (s.calls i) env.fails → Of s i (.go i env) l
  | handle {c r} : Of s i (.runHandle c r) (.handle c r)
  | work {c act} : Of s i (.work c act) .stay

theorem thread_of_not_busy {k : Call} (h : k.busy = false) : k.thread = .idle := by
  cases k with
  | idle => rfl
  | returned => rfl
  | _ => cases h

/-- Every step of the world is a step of the protocol of run writers. -/
theorem world_refines {s t : World} {act : WorldAct} (h : s.step act = some t) :
    ∃ i l, ProtocolMove s.protocol i l t.protocol ∧ l.Of s i act := by
  cases act with
  | start i request =>
    simp only [World.step] at h
    split at h
    · cases h
    · rename_i hb
      cases h
      have hidle : (s.calls i).thread = .idle := thread_of_not_busy (by simpa using hb)
      cases request with
      | finishRun c r | failRun c r =>
        refine ⟨i, .begin c r, ?_, .begins rfl⟩
        rw [protocol_setCall]
        exact .begin hidle
      | _ =>
        refine ⟨i, .stay, ?_, .start⟩
        rw [stay_setCall (by rw [hidle]; rfl)]
        exact .stay
  | go i env =>
    have hgo : Refines s i env t := by
      simp only [World.step] at h
      generalize hk : s.calls i = k at h
      cases k with
      | createProject c projectId name pc => exact createProject_refines hk h
      | createRun c projectId name r pc => exact createRun_refines hk h
      | resumeRun c r pc => exact resumeRun_refines hk h
      | finalizeRun c r target pc => exact finalizeRun_refines hk h
      | flushRunData c r pc => exact flushRunData_refines hk h
      | logMetricAtStep run key n v pc => exact logMetricAtStep_refines hk h
      | shutdown c pc => exact shutdown_refines hk h
      | idle => cases h
      | returned => cases h
    obtain ⟨l, hm, hby⟩ := hgo
    exact ⟨i, l, hm, .go hby⟩
  | runHandle c r =>
    cases h
    exact ⟨0, .handle c r, .handle, .handle⟩
  | work c act =>
    refine ⟨0, .stay, ?_, .work⟩
    simp only [World.step, World.workStep] at h
    have hwork : ∀ r, (s.clients c).reporter.step (.work act) = some r →
        ({ s.setReporter c r with
          points := s.points ++ r.written.drop (s.clients c).reporter.written.length } : World).protocol =
          s.protocol := by
      intro r hr
      have hsd := sender_step hr
      simp only [ne_eq, reduceCtorEq, not_false_eq_true, decide_true, Bool.and_true] at hsd
      have hp : (s.setReporter c r).protocol = s.protocol := protocol_setClient s c hsd
      exact hp
    split at h
    · cases h
    · obtain ⟨r, hr, rfl⟩ := Option.map_eq_some_iff.mp h
      rw [hwork r hr]; exact .stay

end Pulseon
