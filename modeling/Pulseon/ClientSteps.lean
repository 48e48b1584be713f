import Pulseon.WorldSound

/-!
# What a step does to the clients

Calls that create, resume or finish runs leave the reporters alone, a shutdown
leaves their reports alone, and a log call takes its own client's reporter one
step on. Only the call that takes the step moves.
-/

namespace Pulseon

/-! ## Reporters and points -/

structure KeepsClients (s t : World) : Prop where
  reporter : ∀ c, (t.clients c).reporter = (s.clients c).reporter
  caller : ∀ c, (t.clients c).caller = (s.clients c).caller
  isShutdown : ∀ c, (t.clients c).isShutdown = (s.clients c).isShutdown
  points : t.points = s.points

section
variable {s t : World} {i c : Nat} {r : RunId} {env : Env}

theorem keepsClients_of_eq (h : t.clients = s.clients) (hp : t.points = s.points) : KeepsClients s t :=
  ⟨fun _ => by rw [h], fun _ => by rw [h], fun _ => by rw [h], hp⟩

theorem keepsClients_setConnection (c : Nat) (holder : Option Nat)
    (h : t.clients = (s.setConnection c holder).clients) (hp : t.points = s.points) : KeepsClients s t := by
  have hsame : ∀ d, (t.clients d).reporter = (s.clients d).reporter ∧
      (t.clients d).caller = (s.clients d).caller ∧ (t.clients d).isShutdown = (s.clients d).isShutdown := by
    intro d
    rw [h]
    by_cases hd : d = c
    · subst hd; simp [World.setConnection, World.setClient]
    · simp [World.setConnection, World.setClient, hd]
  exact ⟨fun d => (hsame d).1, fun d => (hsame d).2.1, fun d => (hsame d).2.2, hp⟩

theorem createRun_keeps {projectId : ProjectId} {name : String} {pc : CreatePc}
    (h : s.createRunStep i c projectId name r env pc = some t) : KeepsClients s t := by
  cases pc <;> simp only [World.createRunStep] at h <;> repeat' split at h
  all_goals first
    | (cases h; exact keepsClients_of_eq rfl rfl)
    | (cases h; exact keepsClients_setConnection c (some i) rfl rfl)
    | (cases h; exact keepsClients_setConnection c none rfl rfl)
    | cases h

theorem createProject_keeps {projectId : ProjectId} {name : String} {pc : CreateProjectPc}
    (h : s.createProjectStep i c projectId name env pc = some t) : KeepsClients s t := by
  cases pc <;> simp only [World.createProjectStep] at h <;> repeat' split at h
  all_goals first
    | (cases h; exact keepsClients_of_eq rfl rfl)
    | cases h

theorem flushRunData_keeps {pc : FlushPc} (h : s.flushRunDataStep i c r env pc = some t) : KeepsClients s t := by
  cases pc <;> simp only [World.flushRunDataStep] at h <;> repeat' split at h
  all_goals first
    | (cases h; exact keepsClients_of_eq rfl rfl)
    | cases h

theorem resumeRun_keeps {pc : ResumePc} (h : s.resumeRunStep i c r env pc = some t) : KeepsClients s t := by
  cases pc <;> simp only [World.resumeRunStep] at h <;> repeat' split at h
  all_goals first
    | (cases h; exact keepsClients_of_eq rfl rfl)
    | cases h

theorem finalizeRun_keeps {target : TerminalStatus} {pc : FinalizePc}
    (h : s.finalizeRunStep i c r target env pc = some t) : KeepsClients s t := by
  cases pc with
  | drain a d =>
    simp only [World.finalizeRunStep] at h
    split at h
    · cases h; exact keepsClients_of_eq rfl rfl
    · cases h; exact keepsClients_of_eq rfl rfl
    · obtain ⟨d', -, rfl⟩ := Option.map_eq_some_iff.mp h
      exact keepsClients_of_eq rfl rfl
  | _ =>
    simp only [World.finalizeRunStep] at h
    repeat' split at h
    all_goals first
      | (cases h; exact keepsClients_of_eq rfl rfl)
      | (cases h; exact keepsClients_setConnection c (some i) rfl rfl)
      | (cases h; exact keepsClients_setConnection c none rfl rfl)
      | cases h

/-- A report of call `i` takes its client's reporter one step on. -/
structure LogMoves (s : World) (i : Nat) (run : NativeRun) (act : ReporterAct) (t : World) : Prop where
  reporter : (s.clients run.client).reporter.step act = some (t.clients run.client).reporter
  caller : (t.clients run.client).caller =
    if (t.clients run.client).reporter.call.isSome then some i else none
  calls : (t.clients run.client).reporter.call.isSome = true → t.calls = s.calls
  isShutdown : ∀ c, (t.clients c).isShutdown = (s.clients c).isShutdown
  connection : ∀ c, (t.clients c).connection = (s.clients c).connection
  others : ∀ c, c ≠ run.client → t.clients c = s.clients c
  points : t.points = s.points
  runs : t.runs = s.runs
  aggregates : t.aggregates = s.aggregates

theorem setClient_others (s : World) (c : Nat) (client : Client) {d : Nat} (hd : d ≠ c) :
    (s.setClient c client).clients d = s.clients d := by simp [World.setClient, hd]

theorem setClient_self (s : World) (c : Nat) (client : Client) : (s.setClient c client).clients c = client := by
  simp [World.setClient]

theorem logMoves_setClient {run : NativeRun} {act : ReporterAct} {k : Client}
    (hr : (s.clients run.client).reporter.step act = some k.reporter)
    (hc : k.caller = if k.reporter.call.isSome then some i else none)
    (hsd : k.isShutdown = (s.clients run.client).isShutdown)
    (hn : k.connection = (s.clients run.client).connection)
    (h : t.clients = (s.setClient run.client k).clients)
    (hcalls : k.reporter.call.isSome = true → t.calls = s.calls)
    (hp : t.points = s.points) (hruns : t.runs = s.runs) (hagg : t.aggregates = s.aggregates) :
    LogMoves s i run act t := by
  have hself : t.clients run.client = k := by rw [h, setClient_self]
  have hother : ∀ c, c ≠ run.client → t.clients c = s.clients c := fun c hcr => by
    rw [h, setClient_others _ _ _ hcr]
  refine ⟨hself ▸ hr, hself ▸ hc, hself ▸ hcalls, fun c => ?_, fun c => ?_, hother, hp, hruns, hagg⟩
  · by_cases hcr : c = run.client
    · rw [hcr, hself, hsd]
    · rw [hother c hcr]
  · by_cases hcr : c = run.client
    · rw [hcr, hself, hn]
    · rw [hother c hcr]

theorem logMetricAtStep_cases {run : NativeRun} {key : MetricKey} {n : Int} {v : F64} {pc : LogPc}
    (h : s.logMetricAtStepStep i run key n v env pc = some t) :
    pc = .enter ∧ KeepsClients s t ∧ t.runs = s.runs ∧ t.aggregates = s.aggregates ∨
      pc = .report ∧ ∃ act, LogMoves s i run act t ∧
        ((s.clients run.client).caller = none ∧ act = .report run.runId key n v ∨
          (s.clients run.client).caller = some i ∧ act = .call env.now) := by
  cases pc with
  | enter =>
    left
    simp only [World.logMetricAtStepStep] at h
    repeat' split at h
    all_goals first
      | (cases h; exact ⟨rfl, keepsClients_of_eq rfl rfl, rfl, rfl⟩)
      | cases h
  | report =>
    right
    simp only [World.logMetricAtStepStep] at h
    split at h
    · rename_i hcaller
      obtain ⟨r, hr, rfl⟩ := Option.map_eq_some_iff.mp h
      refine ⟨rfl, _, ?_, Or.inl ⟨hcaller, rfl⟩⟩
      split
      · rename_i hcall
        exact logMoves_setClient (k := { s.clients run.client with reporter := r, caller := some i }) hr
          (by simp [hcall]) rfl rfl rfl (fun _ => rfl) rfl rfl rfl
      · rename_i hcall
        exact logMoves_setClient (k := { s.clients run.client with reporter := r }) hr
          (by simp [hcall, hcaller]) rfl rfl rfl (fun e => absurd e hcall) rfl rfl rfl
    · rename_i j hcaller
      split at h
      · rename_i hji
        subst hji
        obtain ⟨r, hr, rfl⟩ := Option.map_eq_some_iff.mp h
        refine ⟨rfl, _, ?_, Or.inr ⟨hcaller, rfl⟩⟩
        split
        · rename_i hcall
          exact logMoves_setClient (k := { s.clients run.client with reporter := r }) hr
            (by simp [hcall, hcaller]) rfl rfl rfl (fun _ => rfl) rfl rfl rfl
        · rename_i hcall
          exact logMoves_setClient (k := { s.clients run.client with reporter := r, caller := none }) hr
            (by simp [hcall]) rfl rfl rfl (fun e => absurd e hcall) rfl rfl rfl
      · cases h

structure ShutdownMoves (s : World) (c : Nat) (t : World) : Prop where
  reporter : (t.clients c).reporter = (s.clients c).reporter ∨
    ∃ act, (act = .takeSender ∨ act = .takeWorker ∨ act = .setWriterClosed) ∧
      (s.clients c).reporter.step act = some (t.clients c).reporter
  caller : (t.clients c).caller = (s.clients c).caller
  isShutdown : (s.clients c).isShutdown = true → (t.clients c).isShutdown = true
  connection : (t.clients c).connection = (s.clients c).connection
  others : ∀ d, d ≠ c → t.clients d = s.clients d
  points : t.points = s.points
  runs : t.runs = s.runs
  aggregates : t.aggregates = s.aggregates

theorem shutdown_moves {pc : ShutdownPc} (h : s.shutdownStep i c env pc = some t) : ShutdownMoves s c t := by
  have hkeep : ∀ {t : World}, t.clients = s.clients → t.points = s.points → t.runs = s.runs →
      t.aggregates = s.aggregates → ShutdownMoves s c t := fun hc hp hr ha =>
    ⟨Or.inl (by rw [hc]), by rw [hc], fun e => by rw [hc]; exact e, by rw [hc], fun _ _ => by rw [hc], hp, hr, ha⟩
  cases pc with
  | reporter d =>
    unfold World.shutdownStep at h
    split at h
    · cases h; exact hkeep rfl rfl rfl rfl
    · cases h; exact hkeep rfl rfl rfl rfl
    · rename_i d' _ _ he
      cases he
      obtain ⟨⟨r', d'⟩, hx, rfl⟩ := Option.map_eq_some_iff.mp h
      refine ⟨?_, ?_, fun e => ?_, ?_, fun d hd => setClient_others s c _ hd, rfl, rfl, rfl⟩
      · change ((s.setClient c { s.clients c with reporter := r' }).clients c).reporter = _ ∨
          ∃ act, _ ∧ _ = some ((s.setClient c { s.clients c with reporter := r' }).clients c).reporter
        rw [setClient_self]
        have hm := shutdownMove_of_step hx
        generalize d' = e at hm
        cases hm with
        | drain | timeout | drained | noWorker | join => exact Or.inl rfl
        | takeSender hc => exact Or.inr ⟨.takeSender, Or.inl rfl, by simp [Reporter.step, hc]⟩
        | takeWorker => exact Or.inr ⟨.takeWorker, Or.inr (Or.inl rfl), rfl⟩
        | setClosed => exact Or.inr ⟨.setWriterClosed, Or.inr (Or.inr rfl), rfl⟩
      · change ((s.setClient c { s.clients c with reporter := r' }).clients c).caller = _
        rw [setClient_self]
      · change ((s.setClient c { s.clients c with reporter := r' }).clients c).isShutdown = _
        rw [setClient_self]; exact e
      · change ((s.setClient c { s.clients c with reporter := r' }).clients c).connection = _
        rw [setClient_self]
    all_goals (rename_i he; cases he)
  | releaseAll result =>
    cases result with
    | ok => cases h; exact hkeep rfl rfl rfl rfl
    | error e => cases h; exact hkeep rfl rfl rfl rfl
  | store =>
    cases h
    refine ⟨Or.inl ?_, ?_, fun _ => ?_, ?_, fun d hd => setClient_others s c _ hd, rfl, rfl, rfl⟩
    · change ((s.setClient c { s.clients c with isShutdown := true }).clients c).reporter = _
      rw [setClient_self]
    · change ((s.setClient c { s.clients c with isShutdown := true }).clients c).caller = _
      rw [setClient_self]
    · change ((s.setClient c { s.clients c with isShutdown := true }).clients c).isShutdown = _
      rw [setClient_self]
    · change ((s.setClient c { s.clients c with isShutdown := true }).clients c).connection = _
      rw [setClient_self]

end

inductive ClientMove (s t : World) (c : Nat) : WorldAct → Prop
  | keeps {act} : (t.clients c).reporter = (s.clients c).reporter → (t.clients c).caller = (s.clients c).caller →
      (t.clients c).isShutdown = (s.clients c).isShutdown → ClientMove s t c act
  | log {i env run key n v a} : s.calls i = .logMetricAtStep run key n v .report → run.client = c →
      ((s.clients c).caller = none ∧ a = .report run.runId key n v ∨
        (s.clients c).caller = some i ∧ a = .call env.now) → LogMoves s i run a t → ClientMove s t c (.go i env)
  | shutdown {i env pc} : s.calls i = .shutdown c pc → ShutdownMoves s c t → ClientMove s t c (.go i env)
  | work {a} : (s.clients c).reporter.step (.work a) = some (t.clients c).reporter →
      (t.clients c).caller = (s.clients c).caller → (t.clients c).isShutdown = (s.clients c).isShutdown →
      ClientMove s t c (.work c a)

theorem client_move {s t : World} {act : WorldAct} (h : s.step act = some t) (c : Nat) : ClientMove s t c act := by
  have hsame : ∀ {act : WorldAct}, t.clients c = s.clients c → ClientMove s t c act :=
    fun e => .keeps (by rw [e]) (by rw [e]) (by rw [e])
  have hkeep : ∀ {act : WorldAct}, KeepsClients s t → ClientMove s t c act :=
    fun hk => .keeps (hk.reporter c) (hk.caller c) (hk.isShutdown c)
  cases act with
  | start i request =>
    simp only [World.step] at h
    split at h
    · cases h
    · cases h; exact hsame rfl
  | go i env =>
    simp only [World.step] at h
    generalize hk : s.calls i = k at h
    cases k with
    | createProject => exact hkeep (createProject_keeps h)
    | createRun => exact hkeep (createRun_keeps h)
    | resumeRun => exact hkeep (resumeRun_keeps h)
    | finalizeRun => exact hkeep (finalizeRun_keeps h)
    | flushRunData => exact hkeep (flushRunData_keeps h)
    | logMetricAtStep run key n v pc =>
      rcases logMetricAtStep_cases h with ⟨-, hm, -⟩ | ⟨rfl, a, hm, ha⟩
      · exact hkeep hm
      · by_cases hc : c = run.client
        · subst hc; exact .log hk rfl ha hm
        · exact hsame (hm.others c hc)
    | shutdown d pc =>
      have hm := shutdown_moves h
      by_cases hc : c = d
      · subst hc; exact .shutdown hk hm
      · exact hsame (hm.others c hc)
    | idle => cases h
    | returned => cases h
  | runHandle d r => cases h; exact hsame rfl
  | work d act =>
    simp only [World.step, World.workStep] at h
    split at h
    · cases h
    · obtain ⟨r, hr, rfl⟩ := Option.map_eq_some_iff.mp h
      by_cases hc : c = d
      · subst hc
        have hself : ∀ points, ({ s.setReporter c r with points := points } : World).clients c =
            { s.clients c with reporter := r } := fun _ => setClient_self s c _
        refine .work ?_ ?_ ?_ <;> rw [hself]
        exact hr
      · exact hsame (setClient_others s d _ hc)

/-- How the reporter of client `c` takes a step. -/
inductive ReporterCause (s : World) (c : Nat) : WorldAct → ReporterAct → Prop
  | log {i env run key n v act} : s.calls i = .logMetricAtStep run key n v .report → run.client = c →
      ((s.clients c).caller = none ∧ act = .report run.runId key n v ∨
        (s.clients c).caller = some i ∧ act = .call env.now) → ReporterCause s c (.go i env) act
  | shutdown {i env pc act} : s.calls i = .shutdown c pc →
      (act = .takeSender ∨ act = .takeWorker ∨ act = .setWriterClosed) → ReporterCause s c (.go i env) act
  | work {act} : ReporterCause s c (.work c act) (.work act)

theorem reporters_step {s t : World} {act : WorldAct} (h : s.step act = some t) (c : Nat) :
    (t.clients c).reporter = (s.clients c).reporter ∨ ∃ a, ReporterCause s c act a ∧
      (s.clients c).reporter.step a = some (t.clients c).reporter := by
  cases client_move h c with
  | keeps hr => exact Or.inl hr
  | log hk hc ha hm => subst hc; exact Or.inr ⟨_, .log hk rfl ha, hm.reporter⟩
  | shutdown hk hm => exact hm.reporter.imp id fun ⟨a, ha, hs⟩ => ⟨a, .shutdown hk ha, hs⟩
  | work hr => exact Or.inr ⟨_, .work, hr⟩

theorem reporters_inv {I : Reporter → Prop} (hI : ∀ r act r', r.step act = some r' → I r → I r')
    (h0 : ∀ capacity, I { capacity := capacity }) {projects : List Project} {runs : List Run}
    {capacity : Nat → Nat} {acts : List WorldAct} {s : World}
    (h : exec World.step (World.init projects runs capacity) acts = some s) (c : Nat) :
    I (s.clients c).reporter := by
  refine exec_inv_all World.step (I := fun s => ∀ c, I (s.clients c).reporter) ?_ h (fun c => h0 _) c
  intro s act t hs hi c
  rcases reporters_step hs c with e | ⟨a, -, e⟩
  · rw [e]; exact hi c
  · exact hI _ _ _ e (hi c)

/-! ## Calls -/

def Call.uses : Call → Option Nat
  | .createProject c _ _ _ | .createRun c _ _ _ _ | .resumeRun c _ _ | .finalizeRun c _ _ _ => some c
  | .flushRunData c _ _ | .shutdown c _ => some c
  | _ => none

def Call.operates : Call → Option RunId
  | .createRun _ _ _ r _ | .resumeRun _ r _ | .finalizeRun _ r _ _ => some r
  | _ => none

def Call.shuts : Call → Option Nat
  | .shutdown c _ => some c
  | _ => none

def Call.finalizes : Call → Option (Nat × RunId × TerminalStatus)
  | .finalizeRun c r target _ => some (c, r, target)
  | _ => none

def Call.creates : Call → Option Nat
  | .createRun c _ _ _ _ => some c
  | _ => none

def Call.project : Call → Option ProjectId
  | .createProject _ p _ _ => some p
  | _ => none

def Call.isOk : Call → Bool
  | .returned (.ok _) => true
  | _ => false

/-- The call `k` has moved on to `k'` or returned. -/
structure Call.Continues (k k' : Call) : Prop where
  client : ∀ c, k'.client = some c → k.client = some c
  uses : ∀ c, k'.uses = some c → k.uses = some c
  operates : ∀ r, k'.operates = some r → k.operates = some r
  shuts : ∀ c, k'.shuts = some c → k.shuts = some c
  finalizes : ∀ x, k'.finalizes = some x → k.finalizes = some x
  project : ∀ p, k'.project = some p → k.project = some p
  creates : ∀ c, k'.creates = some c → k.creates = some c

theorem Call.continues_self (k : Call) : k.Continues k := by
  constructor <;> exact fun _ e => e

theorem Call.continues_returned (k : Call) (result : Except EngineError (Option Run)) :
    k.Continues (.returned result) := ⟨nofun, nofun, nofun, nofun, nofun, nofun, nofun⟩

def WorldAct.thread : WorldAct → Option Nat
  | .start i _ | .go i _ => some i
  | .runHandle _ _ | .work _ _ => none

/-- Call `i`, which was `k`, is the only one that moves. -/
def CallMoves (s : World) (i : Nat) (k : Call) (t : World) : Prop :=
  ∃ k', t.calls = Function.update s.calls i k' ∧ k.Continues k'

section
variable {s t : World} {i c : Nat} {r : RunId} {env : Env}

theorem createRun_calls {projectId : ProjectId} {name : String} {pc : CreatePc}
    (h : s.createRunStep i c projectId name r env pc = some t) :
    CallMoves s i (.createRun c projectId name r pc) t := by
  cases pc <;> simp only [World.createRunStep] at h <;> repeat' split at h
  all_goals first
    | (cases h; exact ⟨_, rfl, Call.continues_returned _ _⟩)
    | (cases h; exact ⟨_, rfl, by constructor <;> exact fun _ e => e⟩)
    | cases h

theorem createProject_calls {projectId : ProjectId} {name : String} {pc : CreateProjectPc}
    (h : s.createProjectStep i c projectId name env pc = some t) :
    CallMoves s i (.createProject c projectId name pc) t := by
  cases pc <;> simp only [World.createProjectStep] at h <;> repeat' split at h
  all_goals first
    | (cases h; exact ⟨_, rfl, Call.continues_returned _ _⟩)
    | (cases h; exact ⟨_, rfl, by constructor <;> exact fun _ e => e⟩)
    | cases h

theorem flushRunData_calls {pc : FlushPc} (h : s.flushRunDataStep i c r env pc = some t) :
    CallMoves s i (.flushRunData c r pc) t := by
  cases pc <;> simp only [World.flushRunDataStep] at h <;> repeat' split at h
  all_goals first
    | (cases h; exact ⟨_, rfl, Call.continues_returned _ _⟩)
    | (cases h; exact ⟨_, rfl, by constructor <;> exact fun _ e => e⟩)
    | cases h

theorem resumeRun_calls {pc : ResumePc} (h : s.resumeRunStep i c r env pc = some t) :
    CallMoves s i (.resumeRun c r pc) t := by
  cases pc <;> simp only [World.resumeRunStep] at h <;> repeat' split at h
  all_goals first
    | (cases h; exact ⟨_, rfl, Call.continues_returned _ _⟩)
    | (cases h; exact ⟨_, rfl, by constructor <;> exact fun _ e => e⟩)
    | cases h

theorem finalizeRun_calls {target : TerminalStatus} {pc : FinalizePc}
    (h : s.finalizeRunStep i c r target env pc = some t) : CallMoves s i (.finalizeRun c r target pc) t := by
  cases pc with
  | drain a d =>
    simp only [World.finalizeRunStep] at h
    split at h
    · cases h; exact ⟨_, rfl, by constructor <;> exact fun _ e => e⟩
    · cases h; exact ⟨_, rfl, by constructor <;> exact fun _ e => e⟩
    · obtain ⟨d', -, rfl⟩ := Option.map_eq_some_iff.mp h
      exact ⟨_, rfl, by constructor <;> exact fun _ e => e⟩
  | _ =>
    simp only [World.finalizeRunStep] at h
    repeat' split at h
    all_goals first
      | (cases h; exact ⟨_, rfl, Call.continues_returned _ _⟩)
      | (cases h; exact ⟨_, rfl, by constructor <;> exact fun _ e => e⟩)
      | cases h

theorem logMetricAtStep_calls {run : NativeRun} {key : MetricKey} {n : Int} {v : F64} {pc : LogPc}
    (hk : s.calls i = .logMetricAtStep run key n v pc)
    (h : s.logMetricAtStepStep i run key n v env pc = some t) :
    CallMoves s i (.logMetricAtStep run key n v pc) t := by
  have hstay : ∀ {t : World}, t.calls = s.calls → CallMoves s i (.logMetricAtStep run key n v pc) t := by
    intro t ht
    refine ⟨_, ?_, Call.continues_self _⟩
    rw [← hk, Function.update_eq_self, ht]
  cases pc with
  | enter =>
    simp only [World.logMetricAtStepStep] at h
    repeat' split at h
    all_goals first
      | (cases h; exact ⟨_, rfl, Call.continues_returned _ _⟩)
      | (cases h; exact ⟨_, rfl, by constructor <;> exact fun _ e => e⟩)
      | cases h
  | report =>
    simp only [World.logMetricAtStepStep] at h
    split at h
    · obtain ⟨r, -, rfl⟩ := Option.map_eq_some_iff.mp h
      split
      · exact hstay rfl
      · exact ⟨_, rfl, Call.continues_returned _ _⟩
    · split at h
      · obtain ⟨r, -, rfl⟩ := Option.map_eq_some_iff.mp h
        split
        · exact hstay rfl
        · exact ⟨_, rfl, Call.continues_returned _ _⟩
      · cases h

theorem shutdown_calls {pc : ShutdownPc} (h : s.shutdownStep i c env pc = some t) :
    CallMoves s i (.shutdown c pc) t := by
  cases pc with
  | reporter d =>
    unfold World.shutdownStep at h
    split at h
    · cases h; exact ⟨_, rfl, Call.continues_returned _ _⟩
    · cases h; exact ⟨_, rfl, by constructor <;> exact fun _ e => e⟩
    · rename_i he
      cases he
      obtain ⟨x, -, rfl⟩ := Option.map_eq_some_iff.mp h
      exact ⟨_, rfl, by constructor <;> exact fun _ e => e⟩
    all_goals (rename_i he; cases he)
  | releaseAll result =>
    cases result with
    | ok => cases h; exact ⟨_, rfl, by constructor <;> exact fun _ e => e⟩
    | error e => cases h; exact ⟨_, rfl, Call.continues_returned _ _⟩
  | store => cases h; exact ⟨_, rfl, Call.continues_returned _ _⟩

theorem calls_go (h : s.step (.go i env) = some t) : CallMoves s i (s.calls i) t := by
  simp only [World.step] at h
  generalize hk : s.calls i = k at h
  cases k with
  | createProject => exact createProject_calls h
  | createRun => exact createRun_calls h
  | resumeRun => exact resumeRun_calls h
  | finalizeRun => exact finalizeRun_calls h
  | flushRunData => exact flushRunData_calls h
  | logMetricAtStep => exact logMetricAtStep_calls hk h
  | shutdown => exact shutdown_calls h
  | idle => cases h
  | returned => cases h

theorem work_calls {act : WorkerAct} (h : s.step (.work c act) = some t) : t.calls = s.calls := by
  simp only [World.step, World.workStep] at h
  split at h
  · cases h
  · obtain ⟨r, -, rfl⟩ := Option.map_eq_some_iff.mp h; rfl

theorem calls_step {act : WorldAct} (hs : s.step act = some t) (j : Nat) : t.calls j = s.calls j ∨
    (∃ request, act = .start j request ∧ (s.calls j).busy = false ∧ t.calls j = request.call) ∨
      ∃ env, act = .go j env ∧ (s.calls j).Continues (t.calls j) := by
  cases act with
  | start i request =>
    simp only [World.step] at hs
    split at hs
    · cases hs
    · rename_i hb
      cases hs
      by_cases hji : j = i
      · subst hji
        exact Or.inr (Or.inl ⟨request, rfl, by simpa using hb, Function.update_self ..⟩)
      · exact Or.inl (Function.update_of_ne hji ..)
  | go i env =>
    obtain ⟨k, ht, hk⟩ := calls_go hs
    by_cases hji : j = i
    · subst hji
      rw [ht, Function.update_self]
      exact Or.inr (Or.inr ⟨env, rfl, hk⟩)
    · exact Or.inl (by rw [ht, Function.update_of_ne hji])
  | runHandle c r => cases hs; exact Or.inl rfl
  | work c act => exact Or.inl (by rw [work_calls hs])

/-- What a call carries along it had before the step or starts with. -/
theorem calls_key {K : Type} {f : Call → Option K} {act : WorldAct}
    (hf : ∀ k k', Call.Continues k k' → ∀ x, f k' = some x → f k = some x) (hs : s.step act = some t)
    {j : Nat} {x : K} (hj : f (t.calls j) = some x) :
    f (s.calls j) = some x ∨ ∃ request, act = .start j request ∧ f request.call = some x := by
  rcases calls_step hs j with e | ⟨request, hact, -, e⟩ | ⟨env, -, hk⟩
  · exact Or.inl (e ▸ hj)
  · exact Or.inr ⟨request, hact, e ▸ hj⟩
  · exact Or.inl (hf _ _ hk x hj)

/-- Calls that had no key in common have none after a step that starts none with a key of another call. -/
theorem calls_unique {K : Type} {f : Call → Option K} {act : WorldAct}
    (hf : ∀ k k', Call.Continues k k' → ∀ x, f k' = some x → f k = some x)
    (hstart : ∀ i request, act = .start i request → ∀ x, f request.call = some x → ∀ j, f (s.calls j) ≠ some x)
    (hs : s.step act = some t) (h : ∀ i j x, f (s.calls i) = some x → f (s.calls j) = some x → i = j) :
    ∀ i j x, f (t.calls i) = some x → f (t.calls j) = some x → i = j := by
  intro i j x hi hj
  rcases calls_key hf hs hi with hi' | ⟨request, rfl, hi'⟩
  · rcases calls_key hf hs hj with hj' | ⟨request, rfl, hj'⟩
    · exact h i j x hi' hj'
    · exact absurd hi' (hstart j request rfl x hj' i)
  · rcases calls_key hf hs hj with hj' | ⟨request', e, -⟩
    · exact absurd hj' (hstart i request rfl x hi' j)
    · cases e; rfl

/-- Threads that take no step have no call. -/
theorem calls_idle {n : Nat} {act : WorldAct} (hs : s.step act = some t) (hact : ∀ i ∈ act.thread, i = n)
    (h : ∀ i, i ≠ n → s.calls i = .idle) : ∀ i, i ≠ n → t.calls i = .idle := by
  intro j hj
  rcases calls_step hs j with e | ⟨request, rfl, -, -⟩ | ⟨env, rfl, -⟩
  · rw [e]; exact h j hj
  · exact absurd (hact j rfl) hj
  · exact absurd (hact j rfl) hj

end

end Pulseon
