import Pulseon.ClientSteps

/-!
# The connection of a client

Statements run under the connection mutex. Two calls keep it between two of
their statements: a `create_run` from its check to its insert, and the rebuild
of the aggregates from its `DELETE` to its `INSERT`.
-/

namespace Pulseon

/-- The client whose connection a call keeps between two statements. -/
def Call.connects : Call → Option Nat
  | .createRun c _ _ _ (.insertRun _) | .finalizeRun c _ _ (.insertAggregates _) => some c
  | _ => none

/-- A connection is kept by the call that has taken it. -/
def Connected (s : World) : Prop :=
  ∀ c i, (s.clients c).connection = some i ↔ (s.calls i).connects = some c

inductive Connects (s t : World) (i : Nat) : Prop
  | keeps : (∀ c, (t.clients c).connection = (s.clients c).connection) →
    (t.calls i).connects = (s.calls i).connects →
      Connects s t i
  | takes (c : Nat) : (s.clients c).connection = none → (s.calls i).connects = none →
      (∀ d, (t.clients d).connection = if d = c then some i else (s.clients d).connection) →
      (t.calls i).connects = some c → Connects s t i
  | frees (c : Nat) : (s.calls i).connects = some c →
      (∀ d, (t.clients d).connection = if d = c then none else (s.clients d).connection) →
      (t.calls i).connects = none → Connects s t i

section
variable {s t : World} {i c : Nat} {act : WorldAct} {env : Env}

theorem setConnection_connection (s : World) (c : Nat) (holder : Option Nat) (d : Nat) :
    ((s.setConnection c holder).clients d).connection = if d = c then holder else (s.clients d).connection := by
  by_cases hd : d = c
  · subst hd; simp [World.setConnection, World.setClient]
  · simp [World.setConnection, World.setClient, hd]

theorem operates_of_connects {k : Call} (h : k.connects = some c) : k.operates ≠ none := by
  cases k with
  | createRun | finalizeRun => simp [Call.operates]
  | _ => cases h

theorem connects_keep {k : Call} (hc : t.clients = s.clients) (hcalls : t.calls = Function.update s.calls i k)
    (hk : k.connects = (s.calls i).connects) : Connects s t i :=
  .keeps (fun _ => by rw [hc]) (by rw [hcalls, Function.update_self, hk])

theorem createRun_connects {projectId : ProjectId} {name : String} {r : RunId} {pc : CreatePc}
    (hk : s.calls i = .createRun c projectId name r pc)
    (hs : s.createRunStep i c projectId name r env pc = some t) :
    Connects s t i := by
  have hself : ∀ {s' : World} {k : Call}, (s'.setCall i k).calls i = k := Function.update_self ..
  cases pc with
  | runExists a =>
    simp only [World.createRunStep] at hs
    repeat' split at hs
    · cases hs
    · cases hs; exact connects_keep rfl rfl (by rw [hk]; rfl)
    · cases hs; exact connects_keep rfl rfl (by rw [hk]; rfl)
    · rename_i hconn _ _
      cases hs
      exact .takes c (by simpa using hconn) (by rw [hk]; rfl) (setConnection_connection s c (some i))
        (by rw [hself]; rfl)
  | insertRun a =>
    simp only [World.createRunStep] at hs
    split at hs
    · cases hs
      exact .frees c (by rw [hk]; rfl) (setConnection_connection s c none) (by rw [hself]; rfl)
    · cases hs
      exact .frees c (by rw [hk]; rfl) (setConnection_connection s c none)
        (by rw [show (World.returns _ i _).calls i = _ from hself]; rfl)
  | _ =>
    simp only [World.createRunStep] at hs
    repeat' split at hs
    all_goals first
      | (cases hs; exact connects_keep rfl rfl (by rw [hk]; rfl))
      | cases hs

theorem finalizeRun_connects {r : RunId} {target : TerminalStatus} {pc : FinalizePc}
    (hk : s.calls i = .finalizeRun c r target pc) (hs : s.finalizeRunStep i c r target env pc = some t) :
    Connects s t i := by
  have hself : ∀ {s' : World} {k : Call}, (s'.setCall i k).calls i = k := Function.update_self ..
  cases pc with
  | drain a d =>
    simp only [World.finalizeRunStep] at hs
    split at hs
    · cases hs; exact connects_keep rfl rfl (by rw [hk]; rfl)
    · cases hs; exact connects_keep rfl rfl (by rw [hk]; rfl)
    · obtain ⟨d', -, rfl⟩ := Option.map_eq_some_iff.mp hs
      exact connects_keep rfl rfl (by rw [hk]; rfl)
  | deleteAggregates a =>
    simp only [World.finalizeRunStep] at hs
    repeat' split at hs
    · cases hs
    · cases hs; exact connects_keep rfl rfl (by rw [hk]; rfl)
    · rename_i hconn _
      cases hs
      exact .takes c (by simpa using hconn) (by rw [hk]; rfl)
        (setConnection_connection { s with aggregates := _ } c (some i)) (by rw [hself]; rfl)
  | insertAggregates a =>
    simp only [World.finalizeRunStep] at hs
    split at hs
    · cases hs
      exact .frees c (by rw [hk]; rfl) (setConnection_connection s c none) (by rw [hself]; rfl)
    · cases hs
      exact .frees c (by rw [hk]; rfl) (setConnection_connection s c none) (by rw [hself]; rfl)
  | _ =>
    simp only [World.finalizeRunStep] at hs
    repeat' split at hs
    all_goals first
      | (cases hs; exact connects_keep rfl rfl (by rw [hk]; rfl))
      | cases hs

/-- A call on no run keeps no connection. -/
theorem Connects.quiet (hs : s.step (.go i env) = some t) (hop : (s.calls i).operates = none)
    (hconn : ∀ d, (t.clients d).connection = (s.clients d).connection) : Connects s t i := by
  obtain ⟨k', hcalls, hcont⟩ := calls_go hs
  have hnone : ∀ {k : Call}, k.operates = none → k.connects = none := by
    intro k hk
    cases e : k.connects with
    | none => rfl
    | some d => exact absurd hk (operates_of_connects e)
  have hop' : k'.operates = none := by
    cases e : k'.operates with
    | none => rfl
    | some r => rw [hcont.operates r e] at hop; cases hop
  refine .keeps hconn ?_
  rw [hnone hop, hcalls, Function.update_self, hnone hop']

theorem connects_go (hs : s.step (.go i env) = some t) : Connects s t i := by
  have hquiet := Connects.quiet hs
  simp only [World.step] at hs
  cases hk : s.calls i with
  | createRun =>
    rw [hk] at hs
    exact createRun_connects hk hs
  | finalizeRun =>
    rw [hk] at hs
    exact finalizeRun_connects hk hs
  | resumeRun c r pc =>
    rw [hk] at hs
    cases pc <;> simp only [World.callStep, World.resumeRunStep] at hs <;> repeat' split at hs
    all_goals first
      | (cases hs; exact connects_keep rfl rfl (by rw [hk]; rfl))
      | cases hs
  | createProject c p name pc =>
    refine hquiet (by rw [hk]; rfl) fun d => ?_
    rw [hk] at hs
    cases pc <;> simp only [World.callStep, World.createProjectStep] at hs <;> repeat' split at hs
    all_goals first | (cases hs; rfl) | cases hs
  | flushRunData c r pc =>
    refine hquiet (by rw [hk]; rfl) fun d => ?_
    rw [hk] at hs
    cases pc <;> simp only [World.callStep, World.flushRunDataStep] at hs <;> repeat' split at hs
    all_goals first | (cases hs; rfl) | cases hs
  | logMetricAtStep run key n v pc =>
    refine hquiet (by rw [hk]; rfl) fun d => ?_
    rw [hk] at hs
    cases pc with
    | enter =>
      simp only [World.callStep, World.logMetricAtStepStep] at hs
      repeat' split at hs
      all_goals first | (cases hs; rfl) | cases hs
    | report =>
      have hs : s.logMetricAtStepStep i run key n v env .report = some t := hs
      rcases logMetricAtStep_cases hs with ⟨e, -⟩ | ⟨-, act, hm, -⟩
      · cases e
      · exact hm.connection d
  | shutdown c pc =>
    refine hquiet (by rw [hk]; rfl) fun d => ?_
    rw [hk] at hs
    have hm := shutdown_moves hs
    by_cases hd : d = c
    · rw [hd]; exact hm.connection
    · rw [hm.others d hd]
  | idle => rw [hk] at hs; cases hs
  | returned => rw [hk] at hs; cases hs

theorem Connected.step (h : Connected s) (hs : s.step act = some t) : Connected t := by
  intro d j
  cases act with
  | start i request =>
    simp only [World.step] at hs
    split at hs
    · cases hs
    · rename_i hb
      cases hs
      by_cases hji : j = i
      · subst hji
        rw [show (s.setCall j request.call).calls j = request.call from Function.update_self ..]
        refine ⟨fun e => ?_, fun e => ?_⟩
        · -- the thread has no call under way
          have hj := (h d j).mp e
          generalize s.calls j = k at hj hb
          cases k with
          | createRun | finalizeRun => exact absurd rfl hb
          | _ => cases hj
        · cases request <;> cases e
      · rw [show (s.setCall i request.call).calls j = s.calls j from Function.update_of_ne hji ..]
        exact h d j
  | go i env =>
    obtain ⟨k', hcalls, -⟩ := calls_go hs
    have hother : j ≠ i → t.calls j = s.calls j := fun hji => by rw [hcalls, Function.update_of_ne hji]
    cases connects_go hs with
    | keeps hconn hcall =>
      rw [hconn]
      by_cases hji : j = i
      · rw [hji, hcall]; exact h d i
      · rw [hother hji]; exact h d j
    | takes c hnone hi hconn hcall =>
      rw [hconn]
      by_cases hji : j = i
      · rw [hji, hcall]
        by_cases hd : d = c
        · simp [hd]
        · simp only [hd, ite_false]
          rw [h d i, hi]
          simp [Ne.symm hd]
      · rw [hother hji]
        by_cases hd : d = c
        · subst hd
          have hj := h d j
          rw [hnone] at hj
          simpa [Ne.symm hji] using hj
        · simp only [hd, ite_false]; exact h d j
    | frees c hi hconn hcall =>
      rw [hconn]
      by_cases hji : j = i
      · rw [hji, hcall]
        by_cases hd : d = c
        · simp [hd]
        · simp only [hd, ite_false]
          rw [h d i, hi]
          simp [Ne.symm hd]
      · rw [hother hji]
        by_cases hd : d = c
        · subst hd
          have hj := h d j
          rw [(h d i).mpr hi] at hj
          simpa [Ne.symm hji] using hj
        · simp only [hd, ite_false]; exact h d j
  | runHandle c r => cases hs; exact h d j
  | work c act =>
    rw [work_calls hs]
    simp only [World.step, World.workStep] at hs
    split at hs
    · cases hs
    · obtain ⟨r, -, rfl⟩ := Option.map_eq_some_iff.mp hs
      have hconn : ((s.setClient c { s.clients c with reporter := r }).clients d).connection =
          (s.clients d).connection := by
        by_cases hd : d = c
        · subst hd; rw [setClient_self]
        · rw [setClient_others _ _ _ hd]
      change ((s.setClient c { s.clients c with reporter := r }).clients d).connection = some j ↔ _
      rw [hconn]; exact h d j

end

theorem connected_init (projects : List Project) (runs : List Run) (capacity : Nat → Nat) :
    Connected (World.init projects runs capacity) := by
  intro c i
  simp [World.init, Call.connects]

end Pulseon
