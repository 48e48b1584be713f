import Pulseon.Teardown
import Pulseon.ShutdownSound

/-!
# When the lock outlives the reports

Whoever drops an active run has dropped its reporter before. If no other value
has a reference to the reporter, that drop was the last one and has joined the
worker, which ends with an empty channel; if one has, nothing has waited for
the worker.
-/

namespace Pulseon

/-- The worker does not run out of retries. -/
def WorkerKeepsOn (s : Teardown) : TeardownAct → Prop
  | .work act => s.reporter.givesUp act = false
  | _ => True

/-- When a run's lock is released, every accepted report of the run is written. -/
def ReleasesWritten (s : Teardown) (act : TeardownAct) : Prop :=
  ∀ a ∈ s.unlocks act, ∀ report ∈ s.reporter.accepted, report.runId = (s.active a).runId →
    report ∈ s.reporter.acknowledged

/-- When a run's lock is released while another value has a reference to the
reporter, no report of the run waits in the channel or in the worker's hand. -/
def SharedReleasesIdle (s : Teardown) (act : TeardownAct) : Prop :=
  ∀ a ∈ s.unlocks act, (∃ o ∈ s.owners, o.reporter ≠ .dropped) →
    ∀ report ∈ s.reporter.worker.inHand ++ s.reporter.channel, report.runId ≠ (s.active a).runId

instance (s : Teardown) : ∀ act, Decidable (WorkerKeepsOn s act)
  | .work _ => inferInstanceAs (Decidable (_ = false))
  | .log _ _ _ _ _ | .call _ | .dropReporter _ | .dropActiveRun _ _ => isTrue trivial

instance (s : Teardown) (act : TeardownAct) : Decidable (ReleasesWritten s act) :=
  inferInstanceAs (Decidable (∀ _ ∈ _, _))

instance (s : Teardown) (act : TeardownAct) : Decidable (SharedReleasesIdle s act) :=
  inferInstanceAs (Decidable (∀ _ ∈ _, _))

/-! ## References to the reporter -/

structure TeardownInv (s : Teardown) : Prop where
  ordered : Ordered s.reporter
  counted : Counted s.reporter
  working : s.reporter.worker.gaveUp = false
  -- without a reference left, the last one has been waited out
  joined : (∃ o ∈ s.owners, o.reporter ≠ .dropped) ∨ s.reporter.worker.hasExited = true
  joining : s.reporter.joinHandle = false →
    (∃ o ∈ s.owners, o.reporter = .join) ∨ s.reporter.worker.hasExited = true

theorem teardownInv_init (capacity : Nat) (active : Nat → ActiveRun) (runs handles : List Nat) :
    TeardownInv (Teardown.init capacity active runs handles) where
  ordered := ordered_init capacity
  counted := counted_init capacity
  working := rfl
  joined := Or.inl ⟨⟨.held, runs⟩, List.mem_cons_self .., nofun⟩
  joining := nofun

section
variable {s t : Teardown} {i a : Nat} {o : Owner}

theorem mem_setOwner (ho : s.owners[i]? = some o) (o' : Owner) : o' ∈ (s.setOwner i o').owners := by
  obtain ⟨hi, -⟩ := List.getElem?_eq_some_iff.mp ho
  exact List.mem_set hi o'

/-- What the owner that moves does not have, another one keeps. -/
theorem exists_setOwner {P : Owner → Prop} (ho : s.owners[i]? = some o) (o' : Owner) (hn : P o → P o')
    (h : ∃ x ∈ s.owners, P x) : ∃ x ∈ (s.setOwner i o').owners, P x := by
  obtain ⟨x, hx, hP⟩ := h
  obtain ⟨j, hj⟩ := List.getElem?_of_mem hx
  by_cases hji : j = i
  · subst hji
    rw [ho] at hj; cases hj
    exact ⟨o', mem_setOwner ho o', hn hP⟩
  · refine ⟨x, List.mem_iff_getElem?.mpr ⟨j, ?_⟩, hP⟩
    show (s.owners.set i o')[j]? = some x
    rw [List.getElem?_set_ne (Ne.symm hji)]
    exact hj

theorem TeardownInv.reporter {r : Reporter} {act : ReporterAct} (h : TeardownInv s)
    (hs : s.reporter.step act = some r) (hw : ∀ w, act = .work w → s.reporter.givesUp w = false)
    (ht : t.reporter = r) (hj : (∃ o ∈ s.owners, o.reporter ≠ .dropped) → ∃ o ∈ t.owners, o.reporter ≠ .dropped)
    (hh : r.joinHandle = false → (∃ o ∈ t.owners, o.reporter = .join) ∨ s.reporter.worker.hasExited = true) :
    TeardownInv t := by
  subst ht
  have hexit : s.reporter.worker.hasExited = true → t.reporter.worker.hasExited = true := fun hx => by
    rw [reporter_stays_exited hs hx]; exact hx
  refine ⟨h.ordered.step hs, h.counted.step h.ordered hs, ?_, h.joined.imp hj hexit,
    fun e => (hh e).imp id hexit⟩
  by_cases hq : ∃ w, act = .work w
  · obtain ⟨w, rfl⟩ := hq
    rw [(gaveUp_work (workerMove_of_step (s := s.reporter) hs)).1, h.working, hw w rfl]; rfl
  · rw [(reporter_step_quiet hs fun w e => hq ⟨w, e⟩).1]; exact h.working

theorem TeardownInv.setOwner (h : TeardownInv s) (ho : s.owners[i]? = some o) {o' : Owner}
    (hr : t.reporter = s.reporter) (ht : t.owners = s.owners.set i o')
    (hd : (∃ x ∈ s.owners, x.reporter ≠ .dropped) → (∃ x ∈ s.owners.set i o', x.reporter ≠ .dropped) ∨
      s.reporter.worker.hasExited = true)
    (hj : o.reporter = .join → o'.reporter = .join ∨ s.reporter.worker.hasExited = true) : TeardownInv t := by
  refine ⟨hr ▸ h.ordered, hr ▸ h.counted, hr ▸ h.working, ?_, ?_⟩
  · rw [hr, ht]
    exact h.joined.elim hd Or.inr
  · rw [hr, ht]
    intro e
    rcases h.joining e with hx | hx
    · by_cases hexit : s.reporter.worker.hasExited = true
      · exact Or.inr hexit
      · exact Or.inl (exists_setOwner (P := fun x => x.reporter = .join) ho o'
          (fun e => (hj e).resolve_right hexit) hx)
    · exact Or.inr hx

/-! ## Steps -/

theorem TeardownInv.dropReporter (h : TeardownInv s) (ho : s.owners[i]? = some o)
    (hs : s.dropReporter i o = some t) : TeardownInv t := by
  have hmove : ∀ {x : Owner}, x.reporter ≠ .dropped → ∃ y ∈ (s.setOwner i x).owners, y.reporter ≠ .dropped :=
    fun hn => ⟨_, mem_setOwner ho _, hn⟩
  have hkeep : ∀ {x : Owner}, o.reporter ≠ .join → (∃ y ∈ s.owners, y.reporter = .join) →
      ∃ y ∈ (s.setOwner i x).owners, y.reporter = .join := fun hn hx =>
    exists_setOwner (P := fun x => x.reporter = .join) ho _ (fun e => absurd e hn) hx
  unfold Teardown.dropReporter at hs
  cases hf : o.reporter with
  | held =>
    simp only [hf] at hs
    split at hs
    · rename_i hshared
      cases hs
      refine h.setOwner ho rfl rfl (fun _ => Or.inl ?_) (fun e => by rw [hf] at e; cases e)
      -- another value has its reference
      obtain ⟨x, hx, hheld⟩ := List.any_eq_true.mp hshared
      have hheld : x.reporter = .held := eq_of_beq hheld
      obtain ⟨j, hj⟩ := List.getElem?_of_mem hx
      have hji : j ≠ i := by
        rintro rfl
        have hmem : (s.owners.set j { o with reporter := .takeSender })[j]? =
            some { o with reporter := .takeSender } := by
          rw [List.getElem?_set_self (List.getElem?_eq_some_iff.mp ho).1]
        rw [show (s.owners.set j { o with reporter := .takeSender })[j]? = some x from hj] at hmem
        cases hmem; cases hheld
      refine ⟨x, List.mem_iff_getElem?.mpr ⟨j, ?_⟩, by rw [hheld]; nofun⟩
      have hj' : (s.owners.set i { o with reporter := .takeSender })[j]? = some x := hj
      rw [List.getElem?_set_ne hji.symm] at hj' ⊢
      exact hj'
    · cases hs
      exact h.setOwner ho rfl rfl (fun _ => Or.inl (hmove nofun)) (fun e => by rw [hf] at e; cases e)
  | takeSender =>
    simp only [hf] at hs
    obtain ⟨r, hr, rfl⟩ := Option.map_eq_some_iff.mp hs
    refine h.reporter hr nofun rfl (fun _ => hmove nofun) fun e => ?_
    rw [joinHandle_step (by nofun) hr] at e
    exact (h.joining e).imp (hkeep (by rw [hf]; nofun)) id
  | takeWorker =>
    simp only [hf] at hs
    split at hs
    · obtain ⟨r, hr, rfl⟩ := Option.map_eq_some_iff.mp hs
      exact h.reporter hr nofun rfl (fun _ => hmove nofun) fun _ => Or.inl ⟨_, mem_setOwner ho _, rfl⟩
    · rename_i hjh
      cases hs
      have hx := h.joining (by simpa using hjh)
      refine h.setOwner ho rfl rfl (fun _ => hx.imp ?_ id) (fun e => by rw [hf] at e; cases e)
      intro hx
      obtain ⟨x, hm, he⟩ := hkeep (x := { o with reporter := .dropped }) (by rw [hf]; nofun) hx
      exact ⟨x, hm, by rw [he]; nofun⟩
  | join =>
    simp only [hf] at hs
    split at hs
    · rename_i hx
      cases hs
      exact h.setOwner ho rfl rfl (fun _ => Or.inr hx) (fun _ => Or.inr hx)
    · cases hs
  | dropped => simp only [hf, reduceCtorEq] at hs

theorem TeardownInv.dropActiveRun (h : TeardownInv s) (ho : s.owners[i]? = some o)
    (hs : s.dropActiveRun i o a = some t) : TeardownInv t := by
  unfold Teardown.dropActiveRun at hs
  split at hs
  · rename_i hf
    have hset : ∀ t : Teardown, t.reporter = s.reporter →
        t.owners = s.owners.set i { o with activeRuns := o.activeRuns.erase a } → TeardownInv t := by
      intro t hr ht
      refine h.setOwner ho hr ht (fun hx => Or.inl ?_) (fun e => by rw [hf.1] at e; cases e)
      exact exists_setOwner (P := fun x => x.reporter ≠ .dropped) ho _ id hx
    simp only [Option.some.injEq] at hs
    split at hs
    · subst hs; exact hset _ rfl rfl
    · subst hs; exact hset _ rfl rfl
  · cases hs

theorem TeardownInv.step {act : TeardownAct} (h : TeardownInv s) (hw : WorkerKeepsOn s act)
    (hs : s.step act = some t) : TeardownInv t := by
  cases act with
  | log j b key n v =>
    obtain ⟨o, ho, hs⟩ := Option.bind_eq_some_iff.mp hs
    unfold Teardown.log at hs
    split at hs
    · obtain ⟨r, hr, rfl⟩ := Option.map_eq_some_iff.mp hs
      refine h.reporter hr nofun rfl id fun e => ?_
      rw [joinHandle_step (by nofun) hr] at e; exact h.joining e
    · cases hs
  | call now =>
    obtain ⟨r, hr, rfl⟩ := Option.map_eq_some_iff.mp hs
    refine h.reporter hr nofun rfl id fun e => ?_
    rw [joinHandle_step (by nofun) hr] at e; exact h.joining e
  | work w =>
    obtain ⟨r, hr, rfl⟩ := Option.map_eq_some_iff.mp hs
    refine h.reporter hr (fun w' e => by cases e; exact hw) rfl id fun e => ?_
    rw [joinHandle_step (by nofun) hr] at e; exact h.joining e
  | dropReporter j =>
    simp only [Teardown.step] at hs
    split at hs
    · cases hs
    · obtain ⟨o, ho, hs⟩ := Option.bind_eq_some_iff.mp hs
      exact h.dropReporter ho hs
  | dropActiveRun j b =>
    obtain ⟨o, ho, hs⟩ := Option.bind_eq_some_iff.mp hs
    exact h.dropActiveRun ho hs

end

/-! ## Releases -/

theorem TeardownInv.lost {s : Teardown} (h : TeardownInv s) : s.reporter.lost = [] := by
  by_cases hx : s.reporter.worker.hasExited = true
  · exact (h.counted.finished (Worker.exited_of_alive hx h.working)).2.2
  · refine h.ordered.kept (h.ordered.live.mpr ⟨?_, by simpa using hx⟩)
    intro e
    have := h.working
    rw [e] at this; cases this

theorem TeardownInv.written_iff {s : Teardown} (h : TeardownInv s) (r : RunId) :
    (∀ report ∈ s.reporter.accepted, report.runId = r → report ∈ s.reporter.acknowledged) ↔
      ∀ report ∈ s.reporter.worker.inHand ++ s.reporter.channel, report.runId ≠ r := by
  have horder := h.ordered.order
  rw [h.lost, List.append_nil] at horder
  have hnodup : s.reporter.accepted.Nodup := by
    refine List.Nodup.of_map MetricReport.enqueueSequence ?_
    rw [h.ordered.numbered]; exact List.nodup_range'
  rw [horder] at hnodup ⊢
  constructor
  · intro hall report hr e
    exact (List.disjoint_of_nodup_append hnodup) (hall report (List.mem_append_right _ hr) e) hr
  · intro hnone report hr e
    rcases List.mem_append.mp hr with hr | hr
    · exact hr
    · exact absurd e (hnone report hr)

/-- With the last reference to the reporter gone, the worker has nothing left. -/
theorem TeardownInv.drained {s : Teardown} (h : TeardownInv s)
    (hx : ¬ ∃ o ∈ s.owners, o.reporter ≠ .dropped) : s.reporter.worker.inHand ++ s.reporter.channel = [] := by
  have hexit := Worker.exited_of_alive (h.joined.resolve_left hx) h.working
  rw [(h.counted.finished hexit).2.1, hexit]; rfl

theorem releasesWritten_iff {s : Teardown} (h : TeardownInv s) (act : TeardownAct) :
    ReleasesWritten s act ↔ SharedReleasesIdle s act := by
  constructor
  · intro hw a ha _
    exact (h.written_iff _).mp (hw a ha)
  · intro hi a ha
    rw [h.written_iff]
    by_cases hx : ∃ o ∈ s.owners, o.reporter ≠ .dropped
    · exact hi a ha hx
    · rw [h.drained hx]; nofun

/-- For every order of drops, the lock of a run is released only after its
accepted reports are written, exactly if that is so where another value still
has its reference to the reporter. -/
theorem lock_outlives_reports_iff {capacity : Nat} {active : Nat → ActiveRun} {runs handles : List Nat}
    {acts : List TeardownAct}
    (hd : Meets Teardown.step WorkerKeepsOn (Teardown.init capacity active runs handles) acts) :
    Meets Teardown.step ReleasesWritten (Teardown.init capacity active runs handles) acts ↔
      Meets Teardown.step SharedReleasesIdle (Teardown.init capacity active runs handles) acts := by
  have hstep : ∀ {C : Teardown → TeardownAct → Prop} (s act t), (WorkerKeepsOn s act ∧ C s act) →
      s.step act = some t → TeardownInv s → TeardownInv t := fun s act t hC hs h => h.step hC.1 hs
  have hinit := teardownInv_init capacity active runs handles
  constructor
  · intro hw
    refine meets_of_inv Teardown.step (C := fun s act => WorkerKeepsOn s act ∧ ReleasesWritten s act) hstep
      (fun s act h hC => (releasesWritten_iff h act).mp hC.2) ?_ hinit
    exact (meets_and Teardown.step).mpr ⟨hd, hw⟩
  · intro hi
    refine meets_of_inv Teardown.step (C := fun s act => WorkerKeepsOn s act ∧ SharedReleasesIdle s act) hstep
      (fun s act h hC => (releasesWritten_iff h act).mpr hC.2) ?_ hinit
    exact (meets_and Teardown.step).mpr ⟨hd, hi⟩

/-! ## A handle that outlives the client -/

def twoRuns : Nat → ActiveRun := fun a => ⟨0, if a = 0 then "r1" else "r2", true, .opened, none⟩

/-- Both handles go, then the client, which waits for the worker to write the report. -/
def orderlyDrop : List TeardownAct := List.flatten
  [[.work (.readClock 0), .log 2 1 "k" 0 ⟨0⟩], List.replicate 5 (.call 0),
    [.dropReporter 2, .dropActiveRun 2 1, .dropReporter 1, .dropActiveRun 1 0],
    List.replicate 3 (.dropReporter 0), [.work .go, .work .go, .work (.write 0)],
    List.replicate 5 (.work .go), [.dropReporter 0, .dropActiveRun 0 1, .dropActiveRun 0 0]]

theorem lock_outlives_reports_iff_run : ∃ s,
    exec Teardown.step (Teardown.init 1 twoRuns [0, 1] [0, 1]) orderlyDrop = some s ∧
      (s.active 1).writerGuard = false ∧ s.reporter.accepted.length = 1 ∧
      Meets Teardown.step ReleasesWritten (Teardown.init 1 twoRuns [0, 1] [0, 1]) orderlyDrop := by
  have hrun : ∃ s, exec Teardown.step (Teardown.init 1 twoRuns [0, 1] [0, 1]) orderlyDrop = some s ∧
      (s.active 1).writerGuard = false ∧ s.reporter.accepted.length = 1 := ⟨_, rfl, rfl, rfl⟩
  obtain ⟨s, h, hg, ha⟩ := hrun
  exact ⟨s, h, hg, ha, (lock_outlives_reports_iff (by decide)).mpr (by decide)⟩

/-- The handle on the other run stays: the client does not wait for the worker,
and the report is in the channel when the lock of its run goes. -/
def handleStays : List TeardownAct := List.flatten
  [[.log 2 1 "k" 0 ⟨0⟩], List.replicate 5 (.call 0),
    [.dropReporter 2, .dropActiveRun 2 1, .dropReporter 0, .dropActiveRun 0 1]]

theorem lock_released_before_report : ¬ ∀ capacity active runs handles acts s,
    exec Teardown.step (Teardown.init capacity active runs handles) acts = some s →
    Meets Teardown.step WorkerKeepsOn (Teardown.init capacity active runs handles) acts →
    Meets Teardown.step ReleasesWritten (Teardown.init capacity active runs handles) acts := by
  intro hall
  have hrun : ∃ s, exec Teardown.step (Teardown.init 1 twoRuns [0, 1] [0, 1]) handleStays = some s := ⟨_, rfl⟩
  obtain ⟨s, h⟩ := hrun
  exact absurd (hall 1 twoRuns [0, 1] [0, 1] handleStays s h (by decide)) (by decide)

end Pulseon
