import Pulseon.Reporter

/-!
# Invariants of the reporter

Every accepted report is in exactly one place: acknowledged, in the worker's
hand, in the channel, or lost with a failed worker, and these follow each other
in enqueue order. Sequence numbers count the accepted reports, and
`persisted_through_sequence` counts the acknowledged ones up to the batch the
worker has written but not yet published.
-/

namespace Pulseon

/-! ## Moves of the worker -/

/-- What one step of the worker can do. -/
inductive WorkerMove (s : Reporter) : WorkerAct → Reporter → Prop
  | readClock {now} : s.worker = .start → WorkerMove s (.readClock now) { s with worker := .recv now }
  | take {next r rest} : s.worker = .recv next → s.channel = r :: rest →
      WorkerMove s .go { s with channel := rest, worker := .poll next [r] }
  | finish {next} : s.worker = .recv next → s.channel = [] → s.sender = false →
      WorkerMove s .go { s with worker := .exited false, receiver := false }
  | more {next batch r rest} : s.worker = .poll next batch ∨ s.worker = .wait next batch →
      batch.length < metricBatchMaxReports ∨ s.worker = .wait next batch → s.channel = r :: rest →
      WorkerMove s .go { s with channel := rest, worker := .poll next (batch ++ [r]) }
  | block {next batch} : s.worker = .poll next batch → batch.length < metricBatchMaxReports →
      s.channel = [] → s.sender = true → WorkerMove s .go { s with worker := .wait next batch }
  | cut {act next batch} : s.worker = .poll next batch ∨ s.worker = .wait next batch →
      WorkerMove s act { s with worker := .write next batch 0 }
  | write {now next batch n} : s.worker = .write next batch n →
      WorkerMove s (.write now) { s with
        worker := .setRunning (writeMetricBatch batch next now).2 batch
        written := s.written ++ (writeMetricBatch batch next now).1
        acknowledged := s.acknowledged ++ batch }
  | retry {now kept message next batch n} : s.worker = .write next batch n → n < writerMaxRetries →
      WorkerMove s (.writeFail now kept message) { s with
        worker := .noteError next batch n message
        written := s.written ++ (writeMetricBatch batch next now).1.take kept }
  | giveUp {now kept message next batch n} : s.worker = .write next batch n →
      ¬ n < writerMaxRetries → WorkerMove s (.writeFail now kept message) { s with
        worker := .giveUp batch message
        written := s.written ++ (writeMetricBatch batch next now).1.take kept }
  | noteError {next batch n message} : s.worker = .noteError next batch n message →
      WorkerMove s .go { s with
        diagnostics := s.diagnostics.setLastWriteError message, worker := .setRetrying next batch n }
  | setRetrying {next batch n} : s.worker = .setRetrying next batch n →
      WorkerMove s .go { s with
        diagnostics := s.diagnostics.setWriterRetrying, worker := .write next batch (n + 1) }
  | setRunning {next batch} : s.worker = .setRunning next batch →
      WorkerMove s .go { s with
        diagnostics := s.diagnostics.setWriterRunning, worker := .countPersisted next batch }
  | countPersisted {next batch} : s.worker = .countPersisted next batch →
      WorkerMove s .go { s with
        diagnostics := s.diagnostics.incrementPersistedBy batch.length, worker := .setThrough next batch }
  | setThrough {next batch} : s.worker = .setThrough next batch →
      WorkerMove s .go { s with
        diagnostics := match batch.getLast? with
          | some report => s.diagnostics.setPersistedThroughSequence report.enqueueSequence
          | none => s.diagnostics
        worker := .settle next batch }
  | settle {next batch} : s.worker = .settle next batch →
      WorkerMove s .go { s with
        diagnostics := s.diagnostics.decrementPendingBy batch.length, worker := .recv next }
  | noteFailure {batch message} : s.worker = .giveUp batch message →
      WorkerMove s .go { s with
        diagnostics := s.diagnostics.setLastWriteError message, worker := .setFailed batch }
  | setFailed {batch} : s.worker = .setFailed batch →
      WorkerMove s .go { s with diagnostics := s.diagnostics.setWriterFailed, worker := .unwind batch }
  | unwind {batch} : s.worker = .unwind batch →
      WorkerMove s .go { s with
        worker := .latch, receiver := false, channel := [], lost := batch ++ s.channel }
  | latch : s.worker = .latch →
      WorkerMove s .go { s with diagnostics := s.diagnostics.setWriterFailed, worker := .exited true }

theorem workerMove_of_collect {s t : Reporter} {next : Int} {batch : List MetricReport}
    (hw : s.worker = .poll next batch ∧ batch.length < metricBatchMaxReports ∨ s.worker = .wait next batch)
    {onEmpty : Option Worker} (ho : ∀ w, onEmpty = some w → w = .wait next batch ∧ s.worker = .poll next batch)
    (h : s.collect next batch onEmpty = some t) : WorkerMove s .go t := by
  have hw' : s.worker = .poll next batch ∨ s.worker = .wait next batch := hw.imp And.left id
  unfold Reporter.collect at h
  cases hc : s.channel with
  | cons r rest =>
    simp only [hc, Option.some.injEq] at h
    subst h
    exact .more hw' (hw.imp And.right id) hc
  | nil =>
    simp only [hc] at h
    split at h
    · rename_i hs
      cases onEmpty with
      | none => cases h
      | some w =>
        simp only [Option.map_some, Option.some.injEq] at h
        obtain ⟨rfl, hp⟩ := ho w rfl
        subst h
        rcases hw with ⟨-, hl⟩ | hw
        · simpa only [hc] using WorkerMove.block hp hl hc hs
        · rw [hp] at hw; cases hw
    · cases h; simpa only [hc] using (WorkerMove.cut hw' : WorkerMove s .go _)

theorem workerMove_of_step {s t : Reporter} {act : WorkerAct} (h : s.workerStep act = some t) :
    WorkerMove s act t := by
  cases act with
  | readClock now =>
    cases hw : s.worker <;> simp only [Reporter.workerStep, hw, reduceCtorEq, Option.some.injEq] at h
    subst h; exact .readClock hw
  | timeout =>
    cases hw : s.worker <;> simp only [Reporter.workerStep, hw, reduceCtorEq, Option.some.injEq] at h
    subst h; exact .cut (Or.inr hw)
  | write now =>
    cases hw : s.worker <;> simp only [Reporter.workerStep, hw, reduceCtorEq, Option.some.injEq] at h
    subst h; exact .write hw
  | writeFail now kept message =>
    cases hw : s.worker <;> simp only [Reporter.workerStep, hw, reduceCtorEq, Option.some.injEq] at h
    subst h
    split
    · exact .retry hw ‹_›
    · exact .giveUp hw ‹_›
  | go =>
    cases hw : s.worker with
    | recv next =>
      simp only [Reporter.workerStep, hw] at h
      cases hc : s.channel with
      | cons r rest => simp only [hc, Option.some.injEq] at h; subst h; exact .take hw hc
      | nil =>
        simp only [hc] at h
        split at h
        · cases h
        · cases h; simpa only [hc] using WorkerMove.finish hw hc (by simpa using ‹¬ s.sender = true›)
    | poll next batch =>
      simp only [Reporter.workerStep, hw] at h
      split at h
      · exact workerMove_of_collect (Or.inl ⟨hw, ‹_›⟩) (fun w e => ⟨(Option.some.inj e).symm, hw⟩) h
      · cases h; exact .cut (Or.inl hw)
    | wait next batch =>
      simp only [Reporter.workerStep, hw] at h
      exact workerMove_of_collect (Or.inr hw) (fun w e => by cases e) h
    | noteError next batch n message =>
      simp only [Reporter.workerStep, hw, Option.some.injEq] at h; subst h; exact .noteError hw
    | setRetrying next batch n =>
      simp only [Reporter.workerStep, hw, Option.some.injEq] at h; subst h; exact .setRetrying hw
    | setRunning next batch =>
      simp only [Reporter.workerStep, hw, Option.some.injEq] at h; subst h; exact .setRunning hw
    | countPersisted next batch =>
      simp only [Reporter.workerStep, hw, Option.some.injEq] at h; subst h; exact .countPersisted hw
    | setThrough next batch =>
      simp only [Reporter.workerStep, hw, Option.some.injEq] at h; subst h; exact .setThrough hw
    | settle next batch =>
      simp only [Reporter.workerStep, hw, Option.some.injEq] at h; subst h; exact .settle hw
    | giveUp batch message =>
      simp only [Reporter.workerStep, hw, Option.some.injEq] at h; subst h; exact .noteFailure hw
    | setFailed batch =>
      simp only [Reporter.workerStep, hw, Option.some.injEq] at h; subst h; exact .setFailed hw
    | unwind batch =>
      simp only [Reporter.workerStep, hw, Option.some.injEq] at h; subst h; exact .unwind hw
    | latch =>
      simp only [Reporter.workerStep, hw, Option.some.injEq] at h; subst h; exact .latch hw
    | start => simp only [Reporter.workerStep, hw, reduceCtorEq] at h
    | write next batch n => simp only [Reporter.workerStep, hw, reduceCtorEq] at h
    | exited f => simp only [Reporter.workerStep, hw, reduceCtorEq] at h

theorem workerMove_frame {s t : Reporter} {act : WorkerAct} (h : WorkerMove s act t) :
    t.accepted = s.accepted ∧ t.returned = s.returned ∧ t.call = s.call ∧ t.sender = s.sender ∧
      t.nextEnqueueSequence = s.nextEnqueueSequence ∧ t.outcome = s.outcome := by
  cases h <;> exact ⟨rfl, rfl, rfl, rfl, rfl, rfl⟩

theorem workerMove_alive {s t : Reporter} {act : WorkerAct} (h : WorkerMove s act t) :
    s.worker.hasExited = false := by
  cases h with
  | more hw | cut hw => rcases hw with hw | hw <;> (rw [hw]; rfl)
  | readClock hw | take hw | finish hw | block hw | write hw | retry hw | giveUp hw | noteError hw
    | setRetrying hw | setRunning hw | countPersisted hw | setThrough hw | settle hw | noteFailure hw
    | setFailed hw | unwind hw | latch hw => rw [hw]; rfl

/-! ## Where the reports are -/

namespace Worker

def inHand : Worker → List MetricReport
  | .poll _ batch | .wait _ batch | .write _ batch _ | .noteError _ batch _ _ => batch
  | .setRetrying _ batch _ | .giveUp batch _ | .setFailed batch | .unwind batch => batch
  | _ => []

/-- The written batch whose last sequence number is not published yet. -/
def unposted : Worker → List MetricReport
  | .setRunning _ batch | .countPersisted _ batch | .setThrough _ batch => batch
  | _ => []

def unsettled : Worker → List MetricReport
  | .settle _ batch => batch
  | w => w.unposted

def gaveUp : Worker → Bool
  | .giveUp _ _ | .setFailed _ | .unwind _ | .latch | .exited true => true
  | _ => false

end Worker

/-- The report of a call that entered the channel and has not returned. -/
def Reporter.sent (s : Reporter) : List MetricReport :=
  match s.call.map ReportCall.pc with
  | some (.advance r) => [r]
  | some (.accept r) => [r]
  | _ => []

def Reporter.uncounted (s : Reporter) : Nat :=
  match s.call.map ReportCall.pc with
  | some (.advance _) => 1
  | _ => 0

structure Ordered (s : Reporter) : Prop where
  order : s.accepted = s.acknowledged ++ (s.worker.inHand ++ (s.channel ++ s.lost))
  numbered : s.accepted.map MetricReport.enqueueSequence = List.range' 1 s.accepted.length
  next : s.nextEnqueueSequence + s.uncounted = s.accepted.length + 1
  returned : s.accepted = s.returned ++ s.sent
  fresh : ∀ r, s.call.map ReportCall.pc = some (.send r) → r.enqueueSequence = s.nextEnqueueSequence
  through : s.diagnostics.persistedThroughSequence + s.worker.unposted.length = s.acknowledged.length
  posted : s.worker.unposted <:+ s.acknowledged
  kept : s.receiver = true → s.lost = []
  live : s.receiver = true ↔ s.worker ≠ .latch ∧ s.worker.hasExited = false

theorem ordered_init (capacity : Nat) : Ordered { capacity := capacity } where
  order := rfl
  numbered := rfl
  next := rfl
  returned := rfl
  fresh := fun r h => by cases h
  through := rfl
  posted := List.suffix_refl _
  kept := fun _ => rfl
  live := by simp [Worker.hasExited]

/-- The last report of an acknowledged batch carries the number of reports
acknowledged so far. -/
theorem last_sequence {accepted acknowledged rest batch : List MetricReport} {r : MetricReport}
    (ho : accepted = acknowledged ++ rest)
    (hn : accepted.map MetricReport.enqueueSequence = List.range' 1 accepted.length)
    (hb : batch <:+ acknowledged) (hr : batch.getLast? = some r) :
    r.enqueueSequence = acknowledged.length := by
  obtain ⟨pre, rfl⟩ := hb
  obtain ⟨init, rfl⟩ := List.getLast?_eq_some_iff.mp hr
  have hget : (accepted.map MetricReport.enqueueSequence)[(pre ++ init).length]? =
      some r.enqueueSequence := by
    rw [ho, List.getElem?_map, ← List.append_assoc, List.append_assoc (pre ++ init),
      List.getElem?_append_right (Nat.le_refl _)]
    simp
  rw [hn, List.getElem?_range'] at hget
  · simp only [Option.some.injEq] at hget
    simp only [List.length_append, List.length_cons, List.length_nil] at hget ⊢
    omega
  · rw [ho]; simp only [List.length_append, List.length_cons, List.length_nil]; omega

theorem Ordered.work {s t : Reporter} {act : WorkerAct} (h : Ordered s) (hm : WorkerMove s act t) :
    Ordered t := by
  obtain ⟨ha, hr, hc, -, hn, -⟩ := workerMove_frame hm
  have hsent : t.sent = s.sent := by unfold Reporter.sent; rw [hc]
  have hunc : t.uncounted = s.uncounted := by unfold Reporter.uncounted; rw [hc]
  have horder := h.order
  have hthrough := h.through
  have hposted := h.posted
  have hlive := h.live
  refine ⟨?_, ha ▸ h.numbered, by rw [hn, hunc, ha]; exact h.next, by rw [ha, hr, hsent]; exact h.returned,
    by rw [hc, hn]; exact h.fresh, ?_, ?_, ?_, ?_⟩
  · cases hm with
    | take hw hch => simpa [hw, hch, Worker.inHand] using horder
    | finish hw hch hs => simpa [hw, hch, Worker.inHand] using horder
    | more hw hl hch => rcases hw with hw | hw <;> simpa [hw, hch, Worker.inHand] using horder
    | cut hw => rcases hw with hw | hw <;> simpa [hw, Worker.inHand] using horder
    | unwind hw =>
      have hl := h.kept (hlive.mpr (by simp [hw, Worker.hasExited]))
      simpa [hw, hl, Worker.inHand] using horder
    | readClock hw | block hw | write hw | retry hw | giveUp hw | noteError hw | setRetrying hw
      | setRunning hw | countPersisted hw | setThrough hw | settle hw | noteFailure hw | setFailed hw
      | latch hw => simpa [hw, Worker.inHand] using horder
  · cases hm with
    | more hw hl hch => rcases hw with hw | hw <;> simpa [hw, Worker.unposted] using hthrough
    | cut hw => rcases hw with hw | hw <;> simpa [hw, Worker.unposted] using hthrough
    | write hw => simp only [hw, Worker.unposted, List.length_nil, List.length_append] at hthrough ⊢; omega
    | setThrough hw =>
      rename_i next batch
      simp only [hw, Worker.unposted, List.length_nil] at hthrough hposted ⊢
      cases hb : batch.getLast? with
      | none =>
        rw [List.getLast?_eq_none_iff] at hb
        subst hb; exact hthrough
      | some r =>
        -- the batch ends where the acknowledged reports end
        have := last_sequence h.order h.numbered hposted hb
        simp only [Diagnostics.setPersistedThroughSequence, this]
        omega
    | readClock hw | take hw | finish hw | block hw | retry hw | giveUp hw | noteError hw
      | setRetrying hw | setRunning hw | countPersisted hw | settle hw | noteFailure hw | setFailed hw
      | unwind hw | latch hw => simpa [hw, Worker.unposted] using hthrough
  · cases hm with
    | write hw => exact List.suffix_append ..
    | setRunning hw => simpa [hw, Worker.unposted] using hposted
    | countPersisted hw => simpa [hw, Worker.unposted] using hposted
    | _ => exact List.nil_suffix
  · cases hm with
    | finish hw => intro he; cases he
    | unwind hw => intro he; cases he
    | _ => exact h.kept
  · cases hm with
    | more hw => rcases hw with hw | hw <;> simpa [hw, Worker.hasExited] using hlive
    | cut hw => rcases hw with hw | hw <;> simpa [hw, Worker.hasExited] using hlive
    | finish hw => simp [Worker.hasExited]
    | unwind hw => simp [Worker.hasExited]
    | readClock hw | take hw | block hw | write hw | retry hw | giveUp hw | noteError hw | setRetrying hw
      | setRunning hw | countPersisted hw | setThrough hw | settle hw | noteFailure hw | setFailed hw
      | latch hw => simpa [hw, Worker.hasExited] using hlive

theorem Ordered.calling {s t : Reporter} (h : Ordered s)
    (hsame : t.accepted = s.accepted ∧ t.acknowledged = s.acknowledged ∧ t.worker = s.worker ∧
      t.channel = s.channel ∧ t.lost = s.lost ∧ t.receiver = s.receiver ∧
      t.diagnostics.persistedThroughSequence = s.diagnostics.persistedThroughSequence)
    (hnext : t.nextEnqueueSequence + t.uncounted = s.nextEnqueueSequence + s.uncounted)
    (hret : t.returned ++ t.sent = s.returned ++ s.sent)
    (hfresh : ∀ r, t.call.map ReportCall.pc = some (.send r) → r.enqueueSequence = t.nextEnqueueSequence) :
    Ordered t := by
  obtain ⟨ha, hk, hw, hc, hl, hr, hd⟩ := hsame
  refine ⟨?_, ha ▸ h.numbered, ?_, ?_, hfresh, ?_, ?_, ?_, ?_⟩
  · rw [ha, hk, hw, hc, hl]; exact h.order
  · rw [ha, hnext]; exact h.next
  · rw [ha, hret]; exact h.returned
  · rw [hd, hw, hk]; exact h.through
  · rw [hw, hk]; exact h.posted
  · rw [hr, hl]; exact h.kept
  · rw [hr, hw]; exact h.live

theorem Ordered.report {s t : Reporter} {runId : RunId} {key : MetricKey} {n : Int} {v : F64}
    (h : Ordered s) (hs : s.reportMetric runId key n v = some t) : Ordered t := by
  unfold Reporter.reportMetric at hs
  split at hs
  · cases hs
  · rename_i hc
    have hcall : s.call = none := by simpa using hc
    have hsame : s.sent = [] ∧ s.uncounted = 0 := by simp [Reporter.sent, Reporter.uncounted, hcall]
    split at hs
    · cases hs
      exact h.calling ⟨rfl, rfl, rfl, rfl, rfl, rfl, rfl⟩ (by rw [hsame.2]; rfl) (by rw [hsame.1]; rfl)
        (fun r hr => by cases hr)
    · cases hs
      exact h.calling ⟨rfl, rfl, rfl, rfl, rfl, rfl, rfl⟩ (by rw [hsame.2]; rfl) (by rw [hsame.1]; rfl)
        (fun r hr => by cases hr)

theorem Ordered.send {s : Reporter} {c : ReportCall} {report : MetricReport} (h : Ordered s)
    (hc : s.call = some c) (hpc : c.pc = .send report) (hr : s.receiver = true) :
    Ordered ({ s with channel := s.channel ++ [report], accepted := s.accepted ++ [report] }.setPc c
      (.advance report)) := by
  have hlost := h.kept hr
  have hnext := h.next
  have hret := h.returned
  have hseq := h.fresh report (by rw [hc, Option.map_some, hpc])
  simp only [Reporter.uncounted, Reporter.sent, hc, hpc, Option.map_some, List.append_nil,
    Nat.add_zero] at hnext hret
  refine ⟨?_, ?_, ?_, ?_, (fun r he => by cases he), h.through, h.posted, h.kept, h.live⟩
  · simp only [Reporter.setPc, h.order, hlost, List.append_nil, List.append_assoc]
  · simp only [Reporter.setPc, List.map_append, h.numbered, List.length_append, List.length_cons,
      List.length_nil, List.map_cons, List.map_nil, hseq, Nat.zero_add]
    rw [List.range'_concat, hnext]; simp [Nat.add_comm]
  · simp only [Reporter.setPc, Reporter.uncounted, Option.map_some, hnext, List.length_append,
      List.length_cons, List.length_nil]
  · simp only [Reporter.setPc, Reporter.sent, Option.map_some, ← hret]

theorem Ordered.call {s : Reporter} {c : ReportCall} (h : Ordered s) (hc : s.call = some c) (now : Int) :
    Ordered (s.callStep c now) := by
  have hunc : s.uncounted = match c.pc with | .advance _ => 1 | _ => 0 := by
    simp only [Reporter.uncounted, hc, Option.map_some]; cases c.pc <;> rfl
  have hsent : s.sent = match c.pc with | .advance r => [r] | .accept r => [r] | _ => [] := by
    simp only [Reporter.sent, hc, Option.map_some]; cases c.pc <;> rfl
  cases hpc : c.pc with
  | send report =>
    rw [hpc] at hunc hsent
    simp only [Reporter.callStep, hpc]
    split
    · exact h.calling ⟨rfl, rfl, rfl, rfl, rfl, rfl, rfl⟩ (by rw [hunc]; rfl) (by rw [hsent]; rfl)
        (fun r hr => by cases hr)
    · rename_i hr
      split
      · exact h.send hc hpc (by simpa using hr)
      · exact h.calling ⟨rfl, rfl, rfl, rfl, rfl, rfl, rfl⟩ (by rw [hunc]; rfl) (by rw [hsent]; rfl)
          (fun r hr => by cases hr)
  | check =>
    rw [hpc] at hunc hsent
    simp only [Reporter.callStep, hpc]
    split
    · exact h.calling ⟨rfl, rfl, rfl, rfl, rfl, rfl, rfl⟩ (by rw [hunc]; rfl) (by rw [hsent]; rfl)
        (fun r hr => by cases hr)
    · exact h.calling ⟨rfl, rfl, rfl, rfl, rfl, rfl, rfl⟩ (by rw [hunc]; rfl) (by rw [hsent]; rfl)
        (fun r hr => by cases hr)
  | build =>
    rw [hpc] at hunc hsent
    simp only [Reporter.callStep, hpc]
    exact h.calling ⟨rfl, rfl, rfl, rfl, rfl, rfl, rfl⟩ (by rw [hunc]; rfl) (by rw [hsent]; rfl)
      (fun r hr => by cases hr; rfl)
  | advance report =>
    rw [hpc] at hunc hsent
    simp only [Reporter.callStep, hpc]
    exact h.calling ⟨rfl, rfl, rfl, rfl, rfl, rfl, rfl⟩ (by rw [hunc]; rfl) (by rw [hsent]; rfl)
      (fun r hr => by cases hr)
  | accept report =>
    rw [hpc] at hunc hsent
    simp only [Reporter.callStep, hpc]
    refine h.calling ⟨rfl, rfl, rfl, rfl, rfl, rfl, rfl⟩ (by rw [hunc]; rfl) ?_ (fun r hr => by cases hr)
    rw [hsent]; simp only [Reporter.returns, Reporter.sent, Option.map_none, List.append_nil]
  | undoFull | countFull | undoClosed =>
    rw [hpc] at hunc hsent
    simp only [Reporter.callStep, hpc]
    exact h.calling ⟨rfl, rfl, rfl, rfl, rfl, rfl, rfl⟩ (by rw [hunc]; rfl) (by rw [hsent]; rfl)
      (fun r hr => by cases hr)

theorem Ordered.step {s t : Reporter} {act : ReporterAct} (h : Ordered s) (hs : s.step act = some t) :
    Ordered t := by
  cases act with
  | report runId key n v => exact h.report hs
  | call now =>
    simp only [Reporter.step, Option.map_eq_some_iff] at hs
    obtain ⟨c, hc, rfl⟩ := hs
    exact h.call hc now
  | work act => exact h.work (workerMove_of_step hs)
  | takeSender =>
    simp only [Reporter.step] at hs
    split at hs
    · cases hs
    · cases hs; exact ⟨h.order, h.numbered, h.next, h.returned, h.fresh, h.through, h.posted, h.kept, h.live⟩
  | takeWorker | setWriterClosed =>
    simp only [Reporter.step, Option.some.injEq] at hs
    subst hs; exact ⟨h.order, h.numbered, h.next, h.returned, h.fresh, h.through, h.posted, h.kept, h.live⟩

/-! ## What a step leaves alone -/

/-- Only the worker writes: any other step leaves its side of the state alone. -/
theorem reporter_step_quiet {s t : Reporter} {act : ReporterAct} (hs : s.step act = some t)
    (hq : ∀ a, act ≠ .work a) : t.worker = s.worker ∧ t.written = s.written ∧
      t.acknowledged = s.acknowledged ∧
      t.diagnostics.persistedThroughSequence = s.diagnostics.persistedThroughSequence := by
  cases act with
  | report runId key n v =>
    simp only [Reporter.step, Reporter.reportMetric] at hs
    split at hs
    · cases hs
    · split at hs <;> (cases hs; exact ⟨rfl, rfl, rfl, rfl⟩)
  | call now =>
    simp only [Reporter.step, Option.map_eq_some_iff] at hs
    obtain ⟨c, -, rfl⟩ := hs
    unfold Reporter.callStep
    split <;> (try split) <;> (try split) <;> exact ⟨rfl, rfl, rfl, rfl⟩
  | work a => exact absurd rfl (hq a)
  | takeSender =>
    simp only [Reporter.step] at hs
    split at hs
    · cases hs
    · cases hs; exact ⟨rfl, rfl, rfl, rfl⟩
  | takeWorker | setWriterClosed =>
    simp only [Reporter.step, Option.some.injEq] at hs
    subst hs; exact ⟨rfl, rfl, rfl, rfl⟩

/-- Accepted reports and published sequence numbers only grow. -/
theorem reporter_step_grows {s t : Reporter} {act : ReporterAct} (hs : s.step act = some t) :
    s.accepted <+: t.accepted ∧
      s.diagnostics.persistedThroughSequence ≤ t.diagnostics.persistedThroughSequence := by
  by_cases hq : ∃ a, act = .work a
  · obtain ⟨a, rfl⟩ := hq
    have hm := workerMove_of_step (s := s) hs
    obtain ⟨ha, -⟩ := workerMove_frame hm
    refine ⟨ha ▸ List.prefix_refl _, ?_⟩
    cases hm with
    | setThrough hw =>
      split
      · exact Nat.le_max_left ..
      · exact Nat.le_refl _
    | _ => exact Nat.le_refl _
  · obtain ⟨-, -, -, hd⟩ := reporter_step_quiet hs fun a e => hq ⟨a, e⟩
    refine ⟨?_, Nat.le_of_eq hd.symm⟩
    cases act with
    | report runId key n v =>
      simp only [Reporter.step, Reporter.reportMetric] at hs
      split at hs
      · cases hs
      · split at hs <;> (cases hs; exact List.prefix_refl _)
    | call now =>
      simp only [Reporter.step, Option.map_eq_some_iff] at hs
      obtain ⟨c, -, rfl⟩ := hs
      unfold Reporter.callStep
      split <;> (try split) <;> (try split) <;>
        first | exact List.prefix_refl _ | exact List.prefix_append ..
    | work a => exact absurd ⟨a, rfl⟩ hq
    | takeSender =>
      simp only [Reporter.step] at hs
      split at hs
      · cases hs
      · cases hs; exact List.prefix_refl _
    | takeWorker | setWriterClosed =>
      simp only [Reporter.step, Option.some.injEq] at hs
      subst hs; exact List.prefix_refl _

theorem reporter_stays_exited {r r' : Reporter} {act : ReporterAct} (hs : r.step act = some r')
    (hx : r.worker.hasExited = true) : r'.worker = r.worker := by
  by_cases hq : ∃ w, act = .work w
  · obtain ⟨w, rfl⟩ := hq
    have := workerMove_alive (workerMove_of_step (s := r) hs)
    rw [hx] at this; cases this
  · exact (reporter_step_quiet hs fun w e => hq ⟨w, e⟩).1

end Pulseon
