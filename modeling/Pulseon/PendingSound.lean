import Pulseon.ReporterSound

/-!
# Accounting of the pending reports

The pending count is the reports in the channel, in the worker's hand or lost
with it, the written ones it has not settled, and the one whose call stands
between its increment and its `try_send`. So it is never negative and has a
bound. The persisted count is one batch behind while the worker has not added
the batch that was acknowledged last.
-/

namespace Pulseon

namespace Worker

def batch : Worker → Option (List MetricReport)
  | .poll _ batch | .wait _ batch | .write _ batch _ | .noteError _ batch _ _ => some batch
  | .setRetrying _ batch _ | .giveUp batch _ | .setFailed batch | .unwind batch => some batch
  | .setRunning _ batch | .countPersisted _ batch | .setThrough _ batch | .settle _ batch => some batch
  | _ => none

end Worker

def ReportPc.counting : ReportPc → Nat
  | .send _ | .undoFull | .undoClosed => 1
  | _ => 0

def Reporter.counting (r : Reporter) : Nat := (r.call.map fun c => c.pc.counting).getD 0

structure Counted (r : Reporter) : Prop where
  pending : r.diagnostics.pendingReports = ((r.channel.length + r.worker.inHand.length +
    r.worker.unsettled.length + r.lost.length + r.counting : Nat) : Int)
  busy : ∀ batch, r.worker.batch = some batch → batch ≠ []
  closed : r.sender = false → r.call = none
  finished : r.worker = .exited false → r.sender = false ∧ r.channel = [] ∧ r.lost = []

theorem counted_init (capacity : Nat) : Counted { capacity := capacity } :=
  ⟨rfl, (fun _ h => by cases h), (fun h => by cases h), fun h => by cases h⟩

theorem Counted.work {s t : Reporter} {act : WorkerAct} (h : Counted s) (ho : Ordered s)
    (hm : WorkerMove s act t) : Counted t := by
  obtain ⟨-, -, hc, hsd, -, -⟩ := workerMove_frame hm
  have hcount : t.counting = s.counting := by unfold Reporter.counting; rw [hc]
  have hpend := h.pending
  have hbusy := h.busy
  refine ⟨?_, ?_, by rw [hsd, hc]; exact h.closed, ?_⟩
  · rw [hcount]
    cases hm with
    | take hw hch | finish hw hch =>
      simp only [hw, hch, Worker.inHand, Worker.unsettled, Worker.unposted, List.length_cons, List.length_nil]
        at hpend ⊢
      omega
    | more hw hl hch =>
      rcases hw with hw | hw <;>
        (simp only [hw, hch, Worker.inHand, Worker.unsettled, Worker.unposted, List.length_cons,
          List.length_nil, List.length_append] at hpend ⊢; omega)
    | cut hw =>
      rcases hw with hw | hw <;> simpa only [hw, Worker.inHand, Worker.unsettled, Worker.unposted] using hpend
    | unwind hw =>
      have hl := ho.kept (ho.live.mpr (by simp [hw, Worker.hasExited]))
      simp only [hw, hl, Worker.inHand, Worker.unsettled, Worker.unposted, List.length_nil,
        List.length_append] at hpend ⊢
      omega
    | write hw =>
      simp only [hw, Worker.inHand, Worker.unsettled, Worker.unposted, List.length_nil] at hpend ⊢
      omega
    | setThrough hw =>
      rw [hw] at hpend
      split <;> exact hpend
    | settle hw =>
      simp only [hw, Worker.inHand, Worker.unsettled, Worker.unposted, List.length_nil,
        Diagnostics.decrementPendingBy] at hpend ⊢
      omega
    | readClock hw | block hw | retry hw | giveUp hw | noteError hw | setRetrying hw
      | setRunning hw | countPersisted hw | noteFailure hw | setFailed hw | latch hw =>
      rw [hw] at hpend
      exact hpend
  · cases hm with
    | take hw hch => intro batch hb; cases hb; simp
    | more hw hl hch =>
      intro batch hb
      simp only [Worker.batch, Option.some.injEq] at hb
      rw [← hb]; simp
    | cut hw => rcases hw with hw | hw <;> (rw [hw] at hbusy; exact hbusy)
    | readClock hw | finish hw | settle hw | unwind hw | latch hw => intro batch hb; cases hb
    | block hw | write hw | retry hw | giveUp hw | noteError hw | setRetrying hw
      | setRunning hw | countPersisted hw | setThrough hw | noteFailure hw | setFailed hw =>
      rw [hw] at hbusy; exact hbusy
  · cases hm with
    | finish hw hch hs =>
      intro _
      exact ⟨hs, hch, ho.kept (ho.live.mpr (by simp [hw, Worker.hasExited]))⟩
    | _ => intro he; cases he

theorem Counted.call {s : Reporter} {c : ReportCall} (h : Counted s) (ho : Ordered s)
    (hc : s.call = some c) (now : Int) : Counted (s.callStep c now) := by
  have hpend := h.pending
  have hsender : s.sender = true := by
    cases hs : s.sender with
    | true => rfl
    | false => have := h.closed hs; rw [hc] at this; cases this
  have hcount : s.counting = c.pc.counting := by
    simp only [Reporter.counting, hc, Option.map_some, Option.getD_some]
  rw [hcount] at hpend
  unfold Reporter.callStep
  cases hpc : c.pc with
  | send report =>
    simp only [hpc, ReportPc.counting] at hpend
    by_cases hr : s.receiver = true
    · have hfin : s.worker ≠ .exited false := by
        intro he
        have := ho.live.mp hr
        rw [he] at this; exact absurd this.2 (by decide)
      simp only [hr, Bool.not_true, Bool.false_eq_true, ite_false]
      split
      · refine ⟨?_, h.busy, fun he => absurd (hsender.symm.trans he) (by decide), fun he => absurd he hfin⟩
        simp only [Reporter.setPc, Reporter.counting, Option.map_some, Option.getD_some, ReportPc.counting,
          List.length_append, List.length_cons, List.length_nil]
        omega
      · exact ⟨hpend, h.busy, fun he => absurd (hsender.symm.trans he) (by decide), h.finished⟩
    · simp only [Bool.not_eq_true] at hr
      simp only [hr, Bool.not_false, ite_true]
      exact ⟨hpend, h.busy, fun he => absurd (hsender.symm.trans he) (by decide), h.finished⟩
  | check =>
    simp only [hpc, ReportPc.counting] at hpend
    dsimp only
    split
    · exact ⟨hpend, h.busy, fun _ => rfl, h.finished⟩
    · exact ⟨hpend, h.busy, fun he => absurd (hsender.symm.trans he) (by decide), h.finished⟩
  | build =>
    simp only [hpc, ReportPc.counting] at hpend
    refine ⟨?_, h.busy, fun he => absurd (hsender.symm.trans he) (by decide), h.finished⟩
    simp only [Reporter.setPc, Reporter.counting, Option.map_some, Option.getD_some, ReportPc.counting,
      Diagnostics.incrementPending]
    omega
  | advance report =>
    simp only [hpc, ReportPc.counting] at hpend
    exact ⟨hpend, h.busy, fun he => absurd (hsender.symm.trans he) (by decide), h.finished⟩
  | accept report =>
    simp only [hpc, ReportPc.counting] at hpend
    exact ⟨hpend, h.busy, fun _ => rfl, h.finished⟩
  | countFull =>
    simp only [hpc, ReportPc.counting] at hpend
    exact ⟨hpend, h.busy, fun _ => rfl, h.finished⟩
  | undoFull =>
    simp only [hpc, ReportPc.counting] at hpend
    refine ⟨?_, h.busy, fun he => absurd (hsender.symm.trans he) (by decide), h.finished⟩
    simp only [Reporter.setPc, Reporter.counting, Option.map_some, Option.getD_some, ReportPc.counting,
      Diagnostics.decrementPending]
    omega
  | undoClosed =>
    simp only [hpc, ReportPc.counting] at hpend
    refine ⟨?_, h.busy, fun _ => rfl, h.finished⟩
    simp only [Reporter.returns, Reporter.counting, Option.map_none, Option.getD_none,
      Diagnostics.decrementPending]
    omega

theorem Counted.step {s t : Reporter} {act : ReporterAct} (h : Counted s) (ho : Ordered s)
    (hs : s.step act = some t) : Counted t := by
  cases act with
  | report runId key n v =>
    simp only [Reporter.step, Reporter.reportMetric] at hs
    split at hs
    · cases hs
    · rename_i hc
      have hpend := h.pending
      have hcall : s.call = none := by simpa using hc
      simp only [Reporter.counting, hcall, Option.map_none, Option.getD_none] at hpend
      split at hs
      · rename_i hsd
        cases hs
        exact ⟨hpend, h.busy, fun he => absurd (hsd.symm.trans he) (by decide), h.finished⟩
      · cases hs; exact ⟨hpend, h.busy, fun _ => rfl, h.finished⟩
  | call now =>
    simp only [Reporter.step, Option.map_eq_some_iff] at hs
    obtain ⟨c, hc, rfl⟩ := hs
    exact h.call ho hc now
  | work act => exact h.work ho (workerMove_of_step hs)
  | takeSender =>
    simp only [Reporter.step] at hs
    split at hs
    · cases hs
    · rename_i hc
      cases hs
      exact ⟨h.pending, h.busy, fun _ => by simpa using hc, fun he => ⟨rfl, (h.finished he).2⟩⟩
  | takeWorker | setWriterClosed =>
    simp only [Reporter.step, Option.some.injEq] at hs
    subst hs; exact ⟨h.pending, h.busy, h.closed, h.finished⟩

/-! ## Bounds -/

/-- The acknowledged batch that the worker has not added to the persisted count. -/
def Worker.unadded : Worker → List MetricReport
  | .setRunning _ batch | .countPersisted _ batch => batch
  | _ => []

structure Bounded (r : Reporter) : Prop where
  total : r.channel.length + (r.worker.batch.getD []).length + r.lost.length ≤ r.capacity + metricBatchMaxReports
  batch : ∀ batch, r.worker.batch = some batch → batch.length ≤ metricBatchMaxReports
  waiting : ∀ next batch, r.worker = .wait next batch → batch.length < metricBatchMaxReports
  persisted : r.diagnostics.persistedReports + r.worker.unadded.length = r.acknowledged.length

theorem bounded_init (capacity : Nat) : Bounded { capacity := capacity } := by
  refine ⟨?_, ?_, ?_, rfl⟩ <;> simp [Worker.batch]

theorem batch_length (w : Worker) : w.inHand.length + w.unsettled.length = (w.batch.getD []).length := by
  cases w <;> simp [Worker.inHand, Worker.unsettled, Worker.unposted, Worker.batch]

theorem Bounded.work {s t : Reporter} {act : WorkerAct} (h : Bounded s) (ho : Ordered s)
    (hm : WorkerMove s act t) : Bounded t := by
  have htotal := h.total
  have hbatch := h.batch
  have hpers := h.persisted
  cases hm with
  | take hw hch =>
    refine ⟨?_, ?_, ?_, ?_⟩
    · simp [hw, hch, Worker.batch] at htotal ⊢; omega
    · simp [Worker.batch, metricBatchMaxReports]
    · simp
    · simpa [hw, Worker.unadded] using hpers
  | more hw hl hch =>
    rename_i next batch report rest
    have hlt : batch.length < metricBatchMaxReports := hl.elim id fun e => h.waiting _ _ e
    refine ⟨?_, ?_, ?_, ?_⟩
    · rcases hw with hw | hw
      · simp [hw, hch, Worker.batch] at htotal ⊢; omega
      · simp [hw, hch, Worker.batch] at htotal ⊢; omega
    · simp [Worker.batch]; omega
    · simp
    · rcases hw with hw | hw <;> simpa [hw, Worker.unadded] using hpers
  | cut hw =>
    rcases hw with hw | hw
    all_goals
      rw [hw] at htotal hbatch hpers
      exact ⟨htotal, hbatch, by simp, hpers⟩
  | block hw hl =>
    rw [hw] at htotal hbatch hpers
    refine ⟨htotal, hbatch, ?_, hpers⟩
    rintro _ _ ⟨⟩
    exact hl
  | write hw =>
    rw [hw] at htotal hbatch hpers
    refine ⟨htotal, hbatch, by simp, ?_⟩
    simp [Worker.unadded] at hpers ⊢; omega
  | countPersisted hw =>
    rw [hw] at htotal hbatch hpers
    refine ⟨htotal, hbatch, by simp, ?_⟩
    simpa [Worker.unadded] using hpers
  | setThrough hw =>
    rw [hw] at htotal hbatch hpers
    refine ⟨htotal, hbatch, by simp, ?_⟩
    split <;> exact hpers
  | settle hw =>
    refine ⟨?_, by simp [Worker.batch], by simp, by simpa [hw, Worker.unadded] using hpers⟩
    simp [hw, Worker.batch] at htotal ⊢; omega
  | unwind hw =>
    have hl := ho.kept (ho.live.mpr (by simp [hw, Worker.hasExited]))
    refine ⟨?_, by simp [Worker.batch], by simp, by simpa [hw, Worker.unadded] using hpers⟩
    simp [hw, hl, Worker.batch] at htotal ⊢; omega
  | readClock hw | finish hw | latch hw =>
    refine ⟨?_, by simp [Worker.batch], by simp, by simpa [hw, Worker.unadded] using hpers⟩
    simpa [hw, Worker.batch] using htotal
  | retry hw | giveUp hw | noteError hw | setRetrying hw | setRunning hw | noteFailure hw | setFailed hw =>
    rw [hw] at htotal hbatch hpers
    exact ⟨htotal, hbatch, by simp, hpers⟩

theorem Bounded.send {s : Reporter} {report : MetricReport} (h : Bounded s) (ho : Ordered s)
    (hr : s.receiver = true) (hroom : s.hasRoom = true) :
    (s.channel ++ [report]).length + (s.worker.batch.getD []).length + s.lost.length ≤
      s.capacity + metricBatchMaxReports := by
  have hl := ho.kept hr
  have hbatch : (s.worker.batch.getD []).length ≤ metricBatchMaxReports := by
    cases hb : s.worker.batch with
    | none => simp
    | some batch => exact h.batch batch hb
  unfold Reporter.hasRoom at hroom
  simp only [Bool.or_eq_true, Bool.and_eq_true, decide_eq_true_eq, beq_iff_eq, List.isEmpty_iff] at hroom
  rcases hroom with hlt | ⟨⟨-, hnil⟩, hrec⟩
  · simp [hl]; omega
  · -- handed over to a worker that waits with room in its batch
    cases hw : s.worker with
    | recv next => simp [hl, hnil, Worker.batch, metricBatchMaxReports]
    | wait next batch =>
      have := h.waiting next batch hw
      simp [hl, hnil, Worker.batch]; omega
    | _ => rw [hw] at hrec; cases hrec

theorem Bounded.step {s t : Reporter} {act : ReporterAct} (h : Bounded s) (ho : Ordered s)
    (hs : s.step act = some t) : Bounded t := by
  cases act with
  | report runId key n v =>
    simp only [Reporter.step, Reporter.reportMetric] at hs
    split at hs
    · cases hs
    · split at hs <;> (cases hs; exact ⟨h.total, h.batch, h.waiting, h.persisted⟩)
  | call now =>
    obtain ⟨c, hc, rfl⟩ := Option.map_eq_some_iff.mp hs
    unfold Reporter.callStep
    cases hp : c.pc with
    | send report =>
      by_cases hr : s.receiver = true
      · by_cases hroom : s.hasRoom = true
        · simp only [hr, hroom, Bool.not_true, Bool.false_eq_true, ite_false, ite_true]
          exact ⟨h.send ho hr hroom, h.batch, h.waiting, h.persisted⟩
        · simp only [hr, hroom, Bool.not_true, Bool.false_eq_true, ite_false]
          exact ⟨h.total, h.batch, h.waiting, h.persisted⟩
      · simp only [hr, Bool.not_false, ite_true]
        exact ⟨h.total, h.batch, h.waiting, h.persisted⟩
    | check =>
      dsimp only
      split <;> exact ⟨h.total, h.batch, h.waiting, h.persisted⟩
    | _ => exact ⟨h.total, h.batch, h.waiting, h.persisted⟩
  | work act => exact h.work ho (workerMove_of_step (s := s) hs)
  | takeSender =>
    simp only [Reporter.step] at hs
    split at hs
    · cases hs
    · cases hs; exact ⟨h.total, h.batch, h.waiting, h.persisted⟩
  | takeWorker | setWriterClosed => cases hs; exact ⟨h.total, h.batch, h.waiting, h.persisted⟩

/-- The fields that no step changes, and the handle that only taking the worker does. -/
theorem fixed_step {s t : Reporter} {act : ReporterAct} (hs : s.step act = some t) :
    t.capacity = s.capacity ∧ (act ≠ .takeWorker → t.joinHandle = s.joinHandle) := by
  cases act with
  | report runId key n v =>
    simp only [Reporter.step, Reporter.reportMetric] at hs
    split at hs
    · cases hs
    · split at hs <;> (cases hs; exact ⟨rfl, fun _ => rfl⟩)
  | call now =>
    obtain ⟨c, -, rfl⟩ := Option.map_eq_some_iff.mp hs
    unfold Reporter.callStep
    split <;> (try split) <;> (try split) <;> exact ⟨rfl, fun _ => rfl⟩
  | work act => cases workerMove_of_step (s := s) hs <;> exact ⟨rfl, fun _ => rfl⟩
  | takeSender =>
    simp only [Reporter.step] at hs
    split at hs
    · cases hs
    · cases hs; exact ⟨rfl, fun _ => rfl⟩
  | takeWorker => cases hs; exact ⟨rfl, fun h => absurd rfl h⟩
  | setWriterClosed => cases hs; exact ⟨rfl, fun _ => rfl⟩

theorem counting_le (r : Reporter) : r.counting ≤ 1 := by
  unfold Reporter.counting
  cases r.call with
  | none => simp
  | some c => cases hp : c.pc <;> simp [hp, ReportPc.counting]

/-- In every state the pending count is the reports in the channel, those of the
worker's batch, those lost and the one being counted; it never wraps and is
bounded; the persisted count is that of the acknowledged reports, less the batch
the worker has not added yet. -/
theorem pending_accounting {capacity : Nat} {acts : List ReporterAct} {s : Reporter}
    (h : exec Reporter.step { capacity := capacity } acts = some s) :
    s.diagnostics.pendingReports =
        ((s.channel.length + (s.worker.batch.getD []).length + s.counting + s.lost.length : Nat) : Int) ∧
      s.counting ≤ 1 ∧ (s.lost ≠ [] → s.receiver = false) ∧ 0 ≤ s.diagnostics.pendingReports ∧
      s.diagnostics.pendingReports ≤ capacity + 8192 + 1 ∧
      s.diagnostics.persistedReports + s.worker.unadded.length = s.acknowledged.length := by
  obtain ⟨ho, hc, hb, hcap⟩ : Ordered s ∧ Counted s ∧ Bounded s ∧ s.capacity = capacity := by
    refine exec_inv_all Reporter.step (I := fun s => Ordered s ∧ Counted s ∧ Bounded s ∧ s.capacity = capacity)
      ?_ h ⟨ordered_init _, counted_init _, bounded_init _, rfl⟩
    rintro s act t hs ⟨ho, hc, hb, hcap⟩
    exact ⟨ho.step hs, hc.step ho hs, hb.step ho hs, (fixed_step hs).1.trans hcap⟩
  have hpend := hc.pending
  have hlen := batch_length s.worker
  have htotal := hb.total
  have hle := counting_le s
  simp only [hcap, metricBatchMaxReports] at htotal
  refine ⟨by omega, hle, fun hl => ?_, by omega, by omega, hb.persisted⟩
  cases hr : s.receiver with
  | false => rfl
  | true => exact absurd (ho.kept hr) hl

/-- One report is taken and its append acknowledged. -/
def acknowledgedRun : List ReporterAct := List.flatten
  [[.report "r" "k" 0 ⟨0⟩], List.replicate 5 (.call 0), [.work (.readClock 0), .work .go, .work .go,
    .work .timeout, .work (.write 0)]]

theorem persisted_lags : ¬ ∀ capacity acts s, exec Reporter.step { capacity := capacity } acts = some s →
    s.diagnostics.persistedReports = s.acknowledged.length := by
  intro hall
  obtain ⟨s, hs, hp, ha⟩ : ∃ s, exec Reporter.step { capacity := 1 } acknowledgedRun = some s ∧
      s.diagnostics.persistedReports = 0 ∧ s.acknowledged.length = 1 := ⟨_, rfl, rfl, rfl⟩
  have := hall 1 acknowledgedRun s hs
  omega

theorem pending_accounting_run : ∃ s, exec Reporter.step { capacity := 1 } acknowledgedRun = some s ∧
    s.diagnostics.pendingReports = 1 ∧ s.diagnostics.pendingReports ≤ 1 + 8192 + 1 := by
  obtain ⟨s, hs, hp⟩ : ∃ s, exec Reporter.step { capacity := 1 } acknowledgedRun = some s ∧
      s.diagnostics.pendingReports = 1 := ⟨_, rfl, rfl⟩
  exact ⟨s, hs, hp, (pending_accounting hs).2.2.2.2.1⟩

end Pulseon
