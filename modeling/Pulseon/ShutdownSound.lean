import Pulseon.PendingSound

/-!
# What a successful shutdown leaves behind

`shutdown` fixes its result when its drain returns. A worker that had given up
before the barrier was read makes the drain fail; one that gives up later, on
reports admitted behind the barrier, does not.
-/

namespace Pulseon

def Shutdown.started : Shutdown → Bool
  | .drain .idle => false
  | _ => true

/-- The step is the worker's last failing attempt at a batch. -/
def Reporter.givesUp (r : Reporter) : WorkerAct → Bool
  | .writeFail _ _ _ =>
    match r.worker with
    | .write _ _ retryCount => decide (¬ retryCount < writerMaxRetries)
    | _ => false
  | _ => false

/-- The worker does not run out of retries behind the barrier of the shutdown. -/
def KeepsWriting (s : Closing) : ClosingAct → Prop
  | .work act => ¬ (s.shutdown.started = true ∧ s.reporter.givesUp act = true)
  | _ => True

/-- What a shutdown that returned `Ok` promises, once no call is under way. -/
structure NothingLost (r : Reporter) : Prop where
  written : ∀ report ∈ r.returned, report ∈ r.acknowledged
  settled : r.diagnostics.pendingReports = 0
  honest : ¬ (r.worker.gaveUp = true ∧ r.diagnostics.writerState = .closed)

/-! ## Giving up -/

theorem gaveUp_work {s t : Reporter} {act : WorkerAct} (hm : WorkerMove s act t) :
    t.worker.gaveUp = (s.worker.gaveUp || s.givesUp act) ∧
      (s.worker.gaveUp = true → t.acknowledged = s.acknowledged) := by
  cases hm with
  | more hw => rcases hw with hw | hw <;> (rw [hw]; exact ⟨rfl, fun h => by cases h⟩)
  | cut hw =>
    rcases hw with hw | hw <;>
      (rw [hw]; refine ⟨?_, fun h => by cases h⟩; cases act <;> simp [Worker.gaveUp, Reporter.givesUp, hw])
  | retry hw hn => rw [hw]; exact ⟨by simp [Worker.gaveUp, Reporter.givesUp, hw, hn], fun h => by cases h⟩
  | giveUp hw hn => rw [hw]; exact ⟨by simp [Worker.gaveUp, Reporter.givesUp, hw, hn], fun h => by cases h⟩
  | write hw => rw [hw]; exact ⟨rfl, fun h => by cases h⟩
  | readClock hw | take hw | finish hw | block hw | noteError hw | setRetrying hw | setRunning hw
    | countPersisted hw | setThrough hw | settle hw | noteFailure hw | setFailed hw | unwind hw
    | latch hw => rw [hw]; exact ⟨rfl, fun _ => rfl⟩

theorem gaveUp_step {s t : Reporter} {act : ReporterAct} (hs : s.step act = some t)
    (hg : s.worker.gaveUp = true) : t.worker.gaveUp = true ∧ t.acknowledged = s.acknowledged := by
  by_cases hq : ∃ a, act = .work a
  · obtain ⟨a, rfl⟩ := hq
    obtain ⟨h1, h2⟩ := gaveUp_work (workerMove_of_step (s := s) hs)
    rw [hg, Bool.true_or] at h1
    exact ⟨h1, h2 hg⟩
  · obtain ⟨hw, -, ha, -⟩ := reporter_step_quiet hs fun a e => hq ⟨a, e⟩
    exact ⟨hw ▸ hg, ha⟩

theorem Worker.exited_of_alive {w : Worker} (hx : w.hasExited = true) (hg : w.gaveUp = false) :
    w = .exited false := by
  cases w with
  | exited failed => cases failed with
    | false => rfl
    | true => cases hg
  | _ => cases hx

/-- Reports given up on are accepted and never acknowledged. -/
structure Behind (r : Reporter) : Prop where
  ordered : Ordered r
  counted : Counted r
  behind : r.worker.gaveUp = true → r.acknowledged.length < r.accepted.length

theorem Behind.step {s t : Reporter} {act : ReporterAct} (h : Behind s) (hs : s.step act = some t) :
    Behind t := by
  refine ⟨h.ordered.step hs, h.counted.step h.ordered hs, fun hg => ?_⟩
  have hgrow := (reporter_step_grows hs).1.length_le
  by_cases hold : s.worker.gaveUp = true
  · have := h.behind hold
    rw [(gaveUp_step hs hold).2]
    omega
  · -- the step is the one that gives up, with its batch in hand
    by_cases hq : ∃ a, act = .work a
    · obtain ⟨a, rfl⟩ := hq
      have hm := workerMove_of_step (s := s) hs
      have hup := (gaveUp_work hm).1
      have horder := congrArg List.length h.ordered.order
      simp only [List.length_append] at horder
      cases hm with
      | giveUp hw hn =>
        have hne := List.length_pos_iff.mpr (h.counted.busy _ (by rw [hw]; rfl))
        simp only [hw, Worker.inHand] at horder
        dsimp only
        omega
      | _ => simp_all [Worker.gaveUp]
    · obtain ⟨hw, -, -, -⟩ := reporter_step_quiet hs fun a e => hq ⟨a, e⟩
      rw [hw] at hg; exact absurd hg hold

/-! ## The shutdown call -/

inductive ShutdownMove (r : Reporter) : Shutdown → Reporter → Shutdown → Prop
  | drain {d d' expired} : d.step r expired = some d' → ShutdownMove r (.drain d) r (.drain d')
  | timeout {barrier seen} : ShutdownMove r (.drain (.done barrier seen (.error .metricDrainTimeout))) r
      (.done (.error .metricDrainTimeout))
  | drained {barrier seen result} : ShutdownMove r (.drain (.done barrier seen result)) r (.takeSender result)
  | takeSender {result} : r.call = none →
      ShutdownMove r (.takeSender result) { r with sender := false } (.takeWorker result)
  | takeWorker {result} : r.joinHandle = true →
      ShutdownMove r (.takeWorker result) { r with joinHandle := false } (.join result)
  | noWorker {result} : r.joinHandle = false → ShutdownMove r (.takeWorker result) r (.joined result)
  | join {result} : r.worker.hasExited = true → ShutdownMove r (.join result) r (.joined result)
  | setClosed : ShutdownMove r .setClosed { r with diagnostics := r.diagnostics.setWriterClosed } (.done (.ok ()))

theorem shutdownMove_of_step {r r' : Reporter} {d d' : Shutdown} {expired : Bool}
    (h : d.step r expired = some (r', d')) : ShutdownMove r d r' d' := by
  cases d with
  | drain d =>
    cases d with
    | done barrier seen result =>
      unfold Shutdown.step at h
      split at h
      · rename_i he; cases he; cases h; exact .timeout
      · rename_i he; cases he; cases h; exact .drained
      · rename_i hne he; cases he; exact absurd rfl (hne _ _ _)
      all_goals (rename_i he; cases he)
    | _ =>
      obtain ⟨e, he, hp⟩ := Option.map_eq_some_iff.mp h
      cases hp; exact .drain he
  | takeSender result =>
    obtain ⟨e, he, hp⟩ := Option.map_eq_some_iff.mp h
    cases hp
    simp only [Reporter.step] at he
    split at he
    · cases he
    · cases he; exact .takeSender (by simpa using ‹¬ r.call.isSome = true›)
  | takeWorker result =>
    simp only [Shutdown.step] at h
    split at h
    · cases h; exact .takeWorker ‹_›
    · cases h; exact .noWorker (by simpa using ‹¬ r.joinHandle = true›)
  | join result =>
    simp only [Shutdown.step] at h
    split at h
    · cases h; exact .join ‹_›
    · cases h
  | setClosed => cases h; exact .setClosed
  | done result => cases h

theorem ShutdownMove.done_ok {r r' : Reporter} {d : Shutdown} (hm : ShutdownMove r d r' (.done (.ok ()))) :
    d = .setClosed ∧ r' = { r with diagnostics := r.diagnostics.setWriterClosed } := by
  generalize hd : Shutdown.done (.ok ()) = d' at hm
  cases hm with
  | noWorker | join =>
    rename_i result _
    cases result <;> cases hd
  | setClosed => exact ⟨rfl, rfl⟩
  | _ => cases hd

/-- How far the teardown has come. -/
def Shutdown.Ended (r : Reporter) : Shutdown → Prop
  | .drain _ | .takeSender _ => r.joinHandle = true
  | .takeWorker _ => r.joinHandle = true ∧ r.sender = false
  | .join _ => r.sender = false
  | .setClosed => r.sender = false ∧ r.worker.hasExited = true
  | .done (.ok ()) => (r.sender = false ∧ r.worker.hasExited = true) ∧ r.diagnostics.writerState = .closed
  | _ => True

/-- The reports the shutdown waited for are persisted, and the worker lives. -/
def Shutdown.Cleared (r : Reporter) : Shutdown → Prop
  | .drain .idle => True
  | .drain (.load barrier _) | .drain (.check barrier _) | .drain (.deadline barrier _) =>
    r.worker.gaveUp = true → r.acknowledged.length < barrier
  | .drain (.done _ _ (.error _)) | .takeSender (.error _) | .takeWorker (.error _) => True
  | .join (.error _) | .done (.error _) => True
  | _ => r.worker.gaveUp = false

theorem joinHandle_step {r r' : Reporter} {act : ReporterAct} (hn : act ≠ .takeWorker)
    (hs : r.step act = some r') : r'.joinHandle = r.joinHandle := (fixed_step hs).2 hn

theorem Shutdown.Ended.reporter {r r' : Reporter} {d : Shutdown} {act : ReporterAct} (h : d.Ended r)
    (hc : Counted r) (hn : act ≠ .setWriterClosed ∧ act ≠ .takeWorker) (hs : r.step act = some r') :
    d.Ended r' := by
  have hj := joinHandle_step hn.2 hs
  have hsender : r.sender = false → r'.sender = false ∧ (r.worker.hasExited = true →
      r'.worker.hasExited = true ∧ r'.diagnostics.writerState = r.diagnostics.writerState) := by
    intro hf
    have hcall := hc.closed hf
    cases act with
    | report runId key n v =>
      simp only [Reporter.step, Reporter.reportMetric, hcall, hf] at hs
      cases hs; exact ⟨hf, fun hx => ⟨hx, rfl⟩⟩
    | call now => simp only [Reporter.step, hcall] at hs; cases hs
    | work act =>
      have hm := workerMove_of_step (s := r) hs
      refine ⟨(workerMove_frame hm).2.2.2.1.trans hf, fun hx => ?_⟩
      rw [workerMove_alive hm] at hx; cases hx
    | takeSender =>
      simp only [Reporter.step, hcall] at hs
      cases hs; exact ⟨rfl, fun hx => ⟨hx, rfl⟩⟩
    | takeWorker => exact absurd rfl hn.2
    | setWriterClosed => exact absurd rfl hn.1
  unfold Shutdown.Ended at h ⊢
  split at h
  · exact hj.trans h
  · exact hj.trans h
  · exact ⟨hj.trans h.1, (hsender h.2).1⟩
  · exact (hsender h).1
  · exact ⟨(hsender h.1).1, ((hsender h.1).2 h.2).1⟩
  · have hx := (hsender h.1.1).2 h.1.2
    exact ⟨⟨(hsender h.1.1).1, hx.1⟩, hx.2.trans h.2⟩
  · trivial

theorem Shutdown.Ended.move {r r' : Reporter} {d d' : Shutdown} (h : d.Ended r)
    (hm : ShutdownMove r d r' d') : d'.Ended r' := by
  cases hm with
  | drain | drained => exact h
  | takeSender hc => exact ⟨h, rfl⟩
  | takeWorker hj => exact h.2
  | noWorker hj => rw [h.1] at hj; cases hj
  | join hx =>
    rename_i result
    cases result with
    | ok => exact ⟨h, hx⟩
    | error e => trivial
  | setClosed => exact ⟨h, rfl⟩
  | timeout => trivial

theorem Shutdown.Cleared.reporter {r r' : Reporter} {d : Shutdown} (h : d.Cleared r)
    (hg : d.started = true → r'.worker.gaveUp = true →
      r.worker.gaveUp = true ∧ r'.acknowledged = r.acknowledged) : d.Cleared r' := by
  have hno : d.started = true → r.worker.gaveUp = false → r'.worker.gaveUp = false := by
    intro hst hf
    cases hu : r'.worker.gaveUp with
    | false => rfl
    | true => rw [(hg hst hu).1] at hf; cases hf
  have hlt : ∀ barrier, d.started = true → (r.worker.gaveUp = true → r.acknowledged.length < barrier) →
      r'.worker.gaveUp = true → r'.acknowledged.length < barrier := by
    intro barrier hst hb hu
    obtain ⟨h1, h2⟩ := hg hst hu
    rw [h2]; exact hb h1
  unfold Shutdown.Cleared at h ⊢
  split at h
  · trivial
  · exact hlt _ rfl h
  · exact hlt _ rfl h
  · exact hlt _ rfl h
  · trivial
  · trivial
  · trivial
  · trivial
  · trivial
  · rename_i hne _ _ _ _ _ _ _ _
    refine hno ?_ h
    unfold Shutdown.started
    split
    · exact absurd rfl hne
    · rfl

theorem Shutdown.Cleared.move {r r' : Reporter} {d d' : Shutdown} (h : d.Cleared r) (hb : Behind r)
    (hm : ShutdownMove r d r' d') : d'.Cleared r' := by
  cases hm with
  | drain hd =>
    rename_i d e expired
    have hnext := hb.ordered.next
    have hthrough := hb.ordered.through
    cases d with
    | idle =>
      simp only [Drain.step] at hd
      split at hd
      · cases hd
      · rename_i hc
        have hcall : r.call = none := by simpa using hc
        simp only [Reporter.uncounted, hcall, Option.map_none, Nat.add_zero] at hnext
        cases hd
        intro hu
        have := hb.behind hu
        omega
    | load barrier seen =>
      simp only [Drain.step] at hd
      split at hd
      · cases hd; exact h
      · cases hd
        show r.worker.gaveUp = false
        cases hu : r.worker.gaveUp with
        | false => rfl
        | true => have := h hu; omega
    | check barrier seen =>
      simp only [Drain.step] at hd
      split at hd
      · cases hd; trivial
      · cases hd; exact h
    | deadline barrier seen =>
      simp only [Drain.step] at hd
      split at hd
      · cases hd; trivial
      · cases hd; exact h
    | final barrier seen =>
      simp only [Drain.step] at hd
      split at hd
      · cases hd; trivial
      · cases hd; exact h
    | done barrier seen result => cases hd
  | drained =>
    rename_i barrier seen result
    cases result with
    | ok => exact h
    | error e => trivial
  | takeSender | takeWorker | noWorker | join =>
    rename_i result _
    cases result with
    | ok => exact h
    | error e => trivial
  | setClosed => exact h
  | timeout => trivial

/-! ## Runs -/

structure ClosingInv (s : Closing) : Prop where
  behind : Behind s.reporter
  ended : s.shutdown.Ended s.reporter

theorem closing_cases {s t : Closing} {act : ClosingAct} (h : s.step act = some t) :
    (∃ a, (a ≠ .setWriterClosed ∧ a ≠ .takeWorker) ∧ s.reporter.step a = some t.reporter ∧ t.shutdown = s.shutdown ∧
      ∀ w, a = .work w → act = .work w) ∨
    ShutdownMove s.reporter s.shutdown t.reporter t.shutdown := by
  cases act with
  | report runId key n v =>
    obtain ⟨r, hr, rfl⟩ := Option.map_eq_some_iff.mp h
    exact Or.inl ⟨.report runId key n v, ⟨by simp, by simp⟩, hr, rfl, fun w e => by cases e⟩
  | call now =>
    obtain ⟨r, hr, rfl⟩ := Option.map_eq_some_iff.mp h
    exact Or.inl ⟨.call now, ⟨by simp, by simp⟩, hr, rfl, fun w e => by cases e⟩
  | work act =>
    obtain ⟨r, hr, rfl⟩ := Option.map_eq_some_iff.mp h
    exact Or.inl ⟨.work act, ⟨by simp, by simp⟩, hr, rfl, fun w e => by cases e; rfl⟩
  | shutdown expired =>
    obtain ⟨⟨r, d⟩, hr, rfl⟩ := Option.map_eq_some_iff.mp h
    exact Or.inr (shutdownMove_of_step hr)

theorem shutdownMove_reporter {r r' : Reporter} {d d' : Shutdown} (hm : ShutdownMove r d r' d') :
    r' = r ∨ ∃ a, (∀ w, a ≠ .work w) ∧ r.step a = some r' := by
  cases hm with
  | takeSender hc => exact Or.inr ⟨.takeSender, (fun w e => by cases e), by simp [Reporter.step, hc]⟩
  | takeWorker => exact Or.inr ⟨.takeWorker, (fun w e => by cases e), rfl⟩
  | setClosed => exact Or.inr ⟨.setWriterClosed, (fun w e => by cases e), rfl⟩
  | _ => exact Or.inl rfl

theorem ShutdownMove.started {r r' : Reporter} {d d' : Shutdown} (hm : ShutdownMove r d r' d')
    (h : d.started = true) : d'.started = true := by
  cases hm with
  | drain hd =>
    rename_i d e expired
    cases d with
    | idle => cases h
    | done barrier seen result => cases hd
    | _ => simp only [Drain.step] at hd; split at hd <;> (cases hd; rfl)
  | noWorker | join =>
    rename_i result _
    cases result <;> rfl
  | _ => rfl

theorem closingInv_step {s t : Closing} {act : ClosingAct} (hs : s.step act = some t) (h : ClosingInv s) :
    ClosingInv t := by
  rcases closing_cases hs with ⟨a, hn, hr, hd, -⟩ | hm
  · exact ⟨h.behind.step hr, hd ▸ h.ended.reporter h.behind.counted hn hr⟩
  · refine ⟨?_, h.ended.move hm⟩
    rcases shutdownMove_reporter hm with he | ⟨a, -, hr⟩
    · exact he ▸ h.behind
    · exact h.behind.step hr

theorem cleared_step {s t : Closing} {act : ClosingAct} (hc : KeepsWriting s act) (hs : s.step act = some t)
    (h : ClosingInv s ∧ s.shutdown.Cleared s.reporter) : ClosingInv t ∧ t.shutdown.Cleared t.reporter := by
  refine ⟨closingInv_step hs h.1, ?_⟩
  rcases closing_cases hs with ⟨a, -, hr, hd, hw⟩ | hm
  · rw [hd]
    refine h.2.reporter fun hst hu => ?_
    by_cases hq : ∃ w, a = .work w
    · obtain ⟨w, rfl⟩ := hq
      obtain ⟨h1, h2⟩ := gaveUp_work (workerMove_of_step (s := s.reporter) hr)
      have hno : s.reporter.givesUp w = false := by
        rw [hw w rfl] at hc
        cases hg : s.reporter.givesUp w with
        | false => rfl
        | true => exact absurd ⟨hst, hg⟩ hc
      rw [hno, Bool.or_false, hu] at h1
      exact ⟨h1.symm, h2 h1.symm⟩
    · obtain ⟨h1, -, h2, -⟩ := reporter_step_quiet hr fun w e => hq ⟨w, e⟩
      exact ⟨h1 ▸ hu, h2⟩
  · exact h.2.move h.1.behind hm

/-- A worker that gave up behind the barrier is marked so to the end. -/
theorem gaveUp_marked {s t : Closing} {act : ClosingAct} (hs : s.step act = some t) :
    (¬ KeepsWriting s act → t.shutdown.started = true ∧ t.reporter.worker.gaveUp = true) ∧
      (s.shutdown.started = true ∧ s.reporter.worker.gaveUp = true →
        t.shutdown.started = true ∧ t.reporter.worker.gaveUp = true) := by
  refine ⟨fun hk => ?_, fun ⟨hst, hu⟩ => ?_⟩
  · cases act with
    | work w =>
      obtain ⟨r, hr, rfl⟩ := Option.map_eq_some_iff.mp hs
      obtain ⟨hst, hg⟩ := not_not.mp hk
      have := (gaveUp_work (workerMove_of_step (s := s.reporter) hr)).1
      rw [hg, Bool.or_true] at this
      exact ⟨hst, this⟩
    | _ => exact absurd trivial hk
  · rcases closing_cases hs with ⟨a, -, hr, hd, -⟩ | hm
    · exact ⟨hd ▸ hst, (gaveUp_step hr hu).1⟩
    · refine ⟨hm.started hst, ?_⟩
      rcases shutdownMove_reporter hm with he | ⟨a, -, hr⟩
      · exact he ▸ hu
      · exact (gaveUp_step hr hu).1

theorem closingInv_init (capacity : Nat) : ClosingInv { reporter := { capacity := capacity } } :=
  ⟨⟨ordered_init capacity, counted_init capacity, fun h => by cases h⟩, rfl⟩

/-- A shutdown that returned `Ok` has lost nothing exactly when the worker did
not run out of retries after the shutdown had read its barrier. -/
theorem shutdown_loses_nothing_iff {capacity : Nat} {acts : List ClosingAct} {s : Closing}
    (h : exec Closing.step { reporter := { capacity := capacity } } acts = some s)
    (hd : s.shutdown = .done (.ok ())) :
    (s.reporter.call = none → NothingLost s.reporter) ↔
      Meets Closing.step KeepsWriting { reporter := { capacity := capacity } } acts := by
  have hinv := exec_inv_all Closing.step (fun _ _ _ hs hi => closingInv_step hs hi) h
    (closingInv_init capacity)
  have hend := hinv.ended
  rw [hd] at hend
  obtain ⟨⟨hsender, hexit⟩, hclosed⟩ := hend
  have hcall := hinv.behind.counted.closed hsender
  constructor
  · intro hlost
    refine meets_of_unmarked Closing.step (I := fun _ => True) (fun _ _ _ _ _ => trivial)
      (fun _ _ _ hs _ => (gaveUp_marked hs).1) (fun _ _ _ hs => (gaveUp_marked hs).2) h trivial fun hb => ?_
    exact (hlost hcall).honest ⟨hb.2, hclosed⟩
  · intro hm _
    have hclear := (exec_inv Closing.step (fun _ _ _ hc hs hi => cleared_step hc hs hi) hm h
      ⟨closingInv_init capacity, trivial⟩).2
    rw [hd] at hclear
    have hlive : s.reporter.worker.gaveUp = false := hclear
    have hw := Worker.exited_of_alive hexit hlive
    obtain ⟨-, hchan, hl⟩ := hinv.behind.counted.finished hw
    have horder := hinv.behind.ordered.order
    have hret := hinv.behind.ordered.returned
    have hpend := hinv.behind.counted.pending
    simp only [hw, hchan, hl, Worker.inHand, List.append_nil] at horder
    simp only [Reporter.sent, hcall, Option.map_none, List.append_nil] at hret
    refine ⟨fun report hr => ?_, ?_, fun hb => ?_⟩
    · rw [← horder, hret]; exact hr
    · rw [hpend]
      simp [hw, hchan, hl, Worker.inHand, Worker.unsettled, Worker.unposted, Reporter.counting, hcall]
    · rw [hlive] at hb; cases hb.1

/-- One report is written before the shutdown drains. -/
def shutdownRun : List ClosingAct := List.flatten
  [[.work (.readClock 0), .report "r" "k" 0 ⟨0⟩], List.replicate 5 (.call 0),
    List.replicate 2 (.work .go), [.work .timeout, .work (.write 0)], List.replicate 4 (.work .go),
    List.replicate 6 (.shutdown false), [.work .go], List.replicate 2 (.shutdown false)]

theorem shutdown_loses_nothing_iff_run : ∃ s,
    exec Closing.step { reporter := { capacity := 2 } } shutdownRun = some s ∧
      s.shutdown = .done (.ok ()) ∧ s.reporter.returned.length = 1 ∧
      ((s.reporter.call = none → NothingLost s.reporter) ↔
        Meets Closing.step KeepsWriting { reporter := { capacity := 2 } } shutdownRun) := by
  have hrun : ∃ s, exec Closing.step { reporter := { capacity := 2 } } shutdownRun = some s ∧
      s.shutdown = .done (.ok ()) ∧ s.reporter.returned.length = 1 := ⟨_, rfl, rfl, rfl⟩
  obtain ⟨s, hs, hd, hl⟩ := hrun
  exact ⟨s, hs, hd, hl, shutdown_loses_nothing_iff hs hd⟩

/-- A report admitted between the barrier and the drop of the sender, whose
batch fails six times. -/
def shutdownLossRun : List ClosingAct := List.flatten
  [[.work (.readClock 0), .shutdown false, .report "r" "k" 0 ⟨0⟩], List.replicate 5 (.call 0),
    List.replicate 5 (.shutdown false), List.replicate 2 (.work .go),
    (List.replicate 5 [.work (.writeFail 0 0 "io"), .work .go, .work .go]).flatten,
    [.work (.writeFail 0 0 "io")], List.replicate 4 (.work .go), List.replicate 2 (.shutdown false)]

theorem shutdown_loses_report : ¬ ∀ capacity acts s,
    exec Closing.step { reporter := { capacity := capacity } } acts = some s →
    s.shutdown = .done (.ok ()) → s.reporter.call = none → NothingLost s.reporter := by
  intro hall
  have hrun : ∃ s, exec Closing.step { reporter := { capacity := 1 } } shutdownLossRun = some s ∧
      s.shutdown = .done (.ok ()) ∧ s.reporter.call = none ∧
      s.reporter.returned.length = 1 ∧ s.reporter.acknowledged = [] := ⟨_, rfl, rfl, rfl, rfl, rfl⟩
  obtain ⟨s, hs, hd, hc, hr, ha⟩ := hrun
  obtain ⟨report, hmem⟩ := List.exists_mem_of_length_pos (hr.symm ▸ Nat.one_pos)
  have := (hall 1 _ s hs hd hc).written report hmem
  rw [ha] at this; cases this

end Pulseon
