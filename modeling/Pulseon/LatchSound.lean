import Pulseon.ReporterSound

/-!
# The writer-failure latch

The worker stores FAILED for the last time when its thread ends. From then on
only a report that entered the channel before can store RUNNING over it: the
receiver is gone, so no later `try_send` succeeds.
-/

namespace Pulseon

def ReportPc.admitting : ReportPc → Bool
  | .advance _ | .accept _ => true
  | _ => false

/-- A report has entered the channel and its call has not stored RUNNING yet. -/
def Reporter.admitting (r : Reporter) : Bool := r.call.any fun c => c.pc.admitting

/-- What a latched writer failure means for the calls on the reporter. -/
structure Latched (s : Draining) : Prop where
  failed : s.reporter.diagnostics.writerState = .failed ∧ s.reporter.diagnostics.isWriterFailed = true
  -- a report that starts now, and one that is about to look at the latch
  starts : ∀ runId key n v t, s.reporter.reportMetric runId key n v = some t →
    if s.reporter.sender then t.call.map ReportCall.pc = some .check
    else t.outcome = some (.error .clientClosed)
  checks : ∀ c now, s.reporter.call = some c → c.pc = .check →
    s.reporter.callStep c now = s.reporter.returns (.error s.reporter.diagnostics.writerFailedError)
  -- a drain whose barrier is not persisted looks at the latch, and returns
  waits : ∀ i barrier seen expired, s.drains i = .load barrier seen →
    s.reporter.diagnostics.persistedThroughSequence < barrier →
    (s.drains i).step s.reporter expired = some (.check barrier seen)
  ends : ∀ i barrier seen expired, s.drains i = .check barrier seen →
    (s.drains i).step s.reporter expired =
      some (.done barrier seen (.error s.reporter.diagnostics.writerFailedError))

theorem latched_iff {s : Draining} : Latched s ↔ s.reporter.diagnostics.writerState = .failed := by
  constructor
  · intro h; exact h.failed.1
  · intro h
    have hf : s.reporter.diagnostics.isWriterFailed = true := by
      unfold Diagnostics.isWriterFailed; rw [h]; rfl
    refine ⟨⟨h, hf⟩, ?_, ?_, ?_, ?_⟩
    · intro runId key n v t ht
      unfold Reporter.reportMetric at ht
      split at ht
      · cases ht
      · split at ht
        · rename_i hs
          cases ht; rw [if_pos hs]; rfl
        · rename_i hs
          cases ht; rw [if_neg hs]; rfl
    · intro c now _ hpc
      unfold Reporter.callStep
      rw [hpc]
      simp only [hf, ite_true]
    · intro i barrier seen expired hd hb
      rw [hd]
      simp only [Drain.step, hb, ite_true]
    · intro i barrier seen expired hd
      rw [hd]
      simp only [Drain.step, hf, ite_true]

/-! ## After the last store of FAILED -/

/-- The failed thread has ended and nothing is left that stores RUNNING. -/
structure LatchKept (r : Reporter) : Prop where
  exited : r.worker = .exited true
  failed : r.diagnostics.writerState = .failed
  receiver : r.receiver = false
  quiet : r.admitting = false

theorem LatchKept.call {r : Reporter} {c : ReportCall} (h : LatchKept r) (hc : r.call = some c)
    (now : Int) : LatchKept (r.callStep c now) := by
  have hq : c.pc.admitting = false := by
    have := h.quiet
    simpa only [Reporter.admitting, hc, Option.any_some] using this
  unfold Reporter.callStep
  cases hpc : c.pc with
  | check =>
    have hf : r.diagnostics.isWriterFailed = true := by
      unfold Diagnostics.isWriterFailed; rw [h.failed]; rfl
    simp only [hf, ite_true]
    exact ⟨h.exited, h.failed, h.receiver, rfl⟩
  | build => exact ⟨h.exited, h.failed, h.receiver, rfl⟩
  | send report =>
    -- the channel is disconnected
    simp only [h.receiver, Bool.not_false, ite_true]
    exact ⟨h.exited, h.failed, h.receiver, rfl⟩
  | advance report => rw [hpc] at hq; cases hq
  | accept report => rw [hpc] at hq; cases hq
  | undoFull => exact ⟨h.exited, h.failed, h.receiver, rfl⟩
  | countFull => exact ⟨h.exited, h.failed, h.receiver, rfl⟩
  | undoClosed => exact ⟨h.exited, h.failed, h.receiver, rfl⟩

theorem LatchKept.step {r r' : Reporter} {act : ReporterAct} (h : LatchKept r)
    (hn : act ≠ .setWriterClosed) (hs : r.step act = some r') : LatchKept r' := by
  cases act with
  | report runId key n v =>
    simp only [Reporter.step, Reporter.reportMetric] at hs
    split at hs
    · cases hs
    · split at hs <;> (cases hs; exact ⟨h.exited, h.failed, h.receiver, rfl⟩)
  | call now =>
    simp only [Reporter.step, Option.map_eq_some_iff] at hs
    obtain ⟨c, hc, rfl⟩ := hs
    exact h.call hc now
  | work act =>
    have := workerMove_alive (workerMove_of_step (s := r) hs)
    rw [h.exited] at this; cases this
  | takeSender =>
    simp only [Reporter.step] at hs
    split at hs
    · cases hs
    · cases hs; exact ⟨h.exited, h.failed, h.receiver, h.quiet⟩
  | takeWorker =>
    simp only [Reporter.step, Option.some.injEq] at hs
    subst hs; exact ⟨h.exited, h.failed, h.receiver, h.quiet⟩
  | setWriterClosed => exact absurd rfl hn

/-- The step is the one a completing `shutdown` ends with. -/
def DrainingAct.closes : DrainingAct → Bool
  | .reporter .setWriterClosed => true
  | _ => false

theorem latchKept_run {s t : Draining} {acts : List DrainingAct} (h : exec Draining.step s acts = some t)
    (hc : ∀ act ∈ acts, act.closes = false) (hs : LatchKept s.reporter) : LatchKept t.reporter := by
  refine exec_inv Draining.step (C := fun _ act => act.closes = false)
    (I := fun s => LatchKept s.reporter) ?_ (meets_of_forall _ (fun _ act ha => hc act ha) s) h hs
  intro s act t hact hst hk
  cases act with
  | reporter act =>
    simp only [Draining.step, Option.map_eq_some_iff] at hst
    obtain ⟨r, hr, rfl⟩ := hst
    exact hk.step (fun e => by rw [e] at hact; cases hact) hr
  | drain i expired =>
    simp only [Draining.step, Option.map_eq_some_iff] at hst
    obtain ⟨d, -, rfl⟩ := hst
    exact hk

theorem Draining.step_call {s : Draining} {c : ReportCall} (hc : s.reporter.call = some c) (now : Int) :
    s.step (.reporter (.call now)) = some { s with reporter := s.reporter.callStep c now } := by
  simp only [Draining.step, Reporter.step, hc, Option.map_some]

theorem latch_reopened {s : Draining} (ha : s.reporter.admitting = true) :
    ∃ acts t, (∀ act ∈ acts, act.closes = false) ∧ exec Draining.step s acts = some t ∧
      t.reporter.diagnostics.writerState = .running := by
  have haccept : ∀ (u : Draining) c report, u.reporter.call = some c → c.pc = .accept report →
      ∃ t, exec Draining.step u [.reporter (.call 0)] = some t ∧
        t.reporter.diagnostics.writerState = .running := by
    intro u c report hc hpc
    refine ⟨_, (exec_cons _).mpr ⟨_, Draining.step_call hc 0, rfl⟩, ?_⟩
    simp only [Reporter.callStep, hpc]; rfl
  obtain ⟨c, hc, hadm⟩ := (Option.any_eq_true _ _).mp ha
  cases hpc : c.pc with
  | accept report =>
    obtain ⟨t, ht, hrun⟩ := haccept s c report hc hpc
    exact ⟨_, t, by decide, ht, hrun⟩
  | advance report =>
    let u : Draining := { s with reporter := s.reporter.callStep c 0 }
    have hu : u.reporter.call = some { c with pc := .accept report } := by
      simp only [u, Reporter.callStep, hpc]; rfl
    obtain ⟨t, ht, hrun⟩ := haccept u _ report hu rfl
    exact ⟨_, t, by decide, (exec_cons _).mpr ⟨u, Draining.step_call hc 0, ht⟩, hrun⟩
  | _ => rw [hpc] at hadm; cases hadm

/-! ## The latch -/

/-- The latch stays closed from the worker's last store of FAILED on, whatever
the calls do before a shutdown completes, exactly when no report has entered
the channel without having stored RUNNING yet. -/
theorem writer_latch_iff {capacity : Nat} {acts : List DrainingAct} {s s' : Draining}
    (h : exec Draining.step { reporter := { capacity := capacity } } acts = some s)
    (hw : s.reporter.worker = .latch) (hs : s.step (.reporter (.work .go)) = some s') :
    (∀ later t, (∀ act ∈ later, act.closes = false) → exec Draining.step s' later = some t → Latched t) ↔
      s.reporter.admitting = false := by
  have hinv : Ordered s.reporter := by
    refine exec_inv_all Draining.step (I := fun s => Ordered s.reporter) ?_ h (ordered_init capacity)
    intro s act t hst hk
    cases act with
    | reporter act =>
      simp only [Draining.step, Option.map_eq_some_iff] at hst
      obtain ⟨r, hr, rfl⟩ := hst
      exact hk.step hr
    | drain i expired =>
      simp only [Draining.step, Option.map_eq_some_iff] at hst
      obtain ⟨d, -, rfl⟩ := hst
      exact hk
  have hrec : s.reporter.receiver = false := by
    have := hinv.live
    simp only [hw, ne_eq, not_true_eq_false, false_and, iff_false, Bool.not_eq_true] at this
    exact this
  have hs' : s'.reporter = { s.reporter with
      diagnostics := s.reporter.diagnostics.setWriterFailed, worker := .exited true } := by
    simp only [Draining.step, Reporter.step, Reporter.workerStep, hw, Option.map_some,
      Option.some.injEq] at hs
    rw [← hs]
  have hadm : s'.reporter.admitting = s.reporter.admitting := by rw [hs']; rfl
  constructor
  · intro hlat
    rcases Bool.eq_false_or_eq_true s.reporter.admitting with ha | ha
    · obtain ⟨later, t, hno, hrun, hst⟩ := latch_reopened (hadm.trans ha)
      have := (hlat later t hno hrun).failed.1
      rw [hst] at this; cases this
    · exact ha
  · intro hq later t hno hrun
    have hkept : LatchKept s'.reporter :=
      ⟨by rw [hs'], by rw [hs']; rfl, by rw [hs']; exact hrec, hadm.trans hq⟩
    exact latched_iff.mpr (latchKept_run hrun hno hkept).failed

/-- Six attempts to write one report fail while a second one enters the channel. -/
def latchRun : List DrainingAct := List.flatten
  [[.reporter (.work (.readClock 0)), .reporter (.report "r" "k" 0 ⟨0⟩)],
    List.replicate 5 (.reporter (.call 0)), List.replicate 2 (.reporter (.work .go)),
    [.reporter (.work .timeout)],
    (List.replicate 5
      [.reporter (.work (.writeFail 0 0 "io")), .reporter (.work .go), .reporter (.work .go)]).flatten,
    [.reporter (.report "r" "k" 1 ⟨0⟩)], List.replicate 3 (.reporter (.call 0)),
    [.reporter (.work (.writeFail 0 0 "io"))], List.replicate 3 (.reporter (.work .go))]

theorem writer_latch_iff_run : ∃ s s', exec Draining.step { reporter := { capacity := 2 } } latchRun = some s ∧
    s.step (.reporter (.work .go)) = some s' ∧
    ((∀ later t, (∀ act ∈ later, act.closes = false) → exec Draining.step s' later = some t → Latched t) ↔
      s.reporter.admitting = false) := by
  obtain ⟨s, hs, hw⟩ : ∃ s, exec Draining.step { reporter := { capacity := 2 } } latchRun = some s ∧
      s.reporter.worker = .latch := ⟨_, rfl, rfl⟩
  obtain ⟨s', hs'⟩ : ∃ s', s.step (.reporter (.work .go)) = some s' := by
    simp only [Draining.step, Reporter.step, Reporter.workerStep, hw, Option.map_some]
    exact ⟨_, rfl⟩
  exact ⟨s, s', hs, hs', writer_latch_iff hs hw hs'⟩

/-- The latch is not permanent: the second report of `latchRun` opens it. -/
theorem writer_latch_reopens : ¬ ∀ capacity acts s,
    exec Draining.step { reporter := { capacity := capacity } } acts = some s →
    (∀ act ∈ acts, act.closes = false) → s.reporter.worker = .exited true → Latched s := by
  intro hall
  have hrun : ∃ s, exec Draining.step { reporter := { capacity := 2 } }
      (latchRun ++ [.reporter (.work .go), .reporter (.call 0), .reporter (.call 0)]) = some s ∧
      s.reporter.worker = .exited true ∧ s.reporter.diagnostics.writerState = .running := ⟨_, rfl, rfl, rfl⟩
  obtain ⟨s, hs, hw, hst⟩ := hrun
  have := (hall 2 _ s hs (by decide) hw).failed.1
  rw [hst] at this; cases this

end Pulseon
