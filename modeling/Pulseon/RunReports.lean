import Pulseon.EffectiveSound

/-!
# The reports of one run

What a reporter holds of one run's reports: a step adds to it only by a call on
that run, and writes only what the worker has in hand.
-/

namespace Pulseon

/-- The report a call is about to send is on the run of the call. -/
def Tagged (q : Reporter) : Prop :=
  ∀ k report, q.call = some k → k.pc = .send report → report.runId = k.runId

def Reporter.Idle (q : Reporter) (r : RunId) : Prop :=
  ∀ report ∈ q.worker.inHand ++ q.channel, report.runId ≠ r

def Reporter.Written (q : Reporter) (r : RunId) : Prop :=
  ∀ report ∈ q.worker.inHand ++ (q.channel ++ q.lost), report.runId ≠ r

structure Reporter.Aside (r : RunId) (q q' : Reporter) : Prop where
  idle : q.Idle r → q'.Idle r
  written : q.Written r → q'.Written r
  accepted : ∃ more, q'.accepted = q.accepted ++ more ∧ ∀ report ∈ more, report.runId ≠ r

theorem Reporter.aside_refl (r : RunId) (q : Reporter) : q.Aside r q :=
  ⟨id, id, [], (List.append_nil _).symm, nofun⟩

theorem Reporter.Written.idle {q : Reporter} {r : RunId} (h : q.Written r) : q.Idle r := by
  intro report hr
  rcases List.mem_append.mp hr with hr | hr
  · exact h report (List.mem_append_left _ hr)
  · exact h report (List.mem_append_right _ (List.mem_append_left _ hr))

section
variable {q q' : Reporter} {act : ReporterAct} {r : RunId}

theorem tagged_init (capacity : Nat) : Tagged { capacity := capacity } := fun _ _ e => by cases e

theorem Tagged.step (h : Tagged q) (hs : q.step act = some q') : Tagged q' := by
  cases act with
  | report runId key n v =>
    simp only [Reporter.step, Reporter.reportMetric] at hs
    split at hs
    · cases hs
    · split at hs
      · cases hs
        intro k report hk hp
        cases hk; cases hp
      · cases hs
        intro k report hk
        cases hk
  | call now =>
    obtain ⟨c, hc, rfl⟩ := Option.map_eq_some_iff.mp hs
    intro k report hk hp
    unfold Reporter.callStep at hk
    split at hk <;> (try split at hk) <;> (try split at hk) <;> cases hk <;> cases hp
    rfl
  | work act =>
    have hcall := (workerMove_frame (workerMove_of_step (s := q) hs)).2.2.1
    intro k report hk hp
    exact h k report (hcall ▸ hk) hp
  | takeSender =>
    simp only [Reporter.step] at hs
    split at hs
    · cases hs
    · cases hs; exact h
  | takeWorker | setWriterClosed => cases hs; exact h

theorem queued_of_work {act : WorkerAct} (hm : WorkerMove q act q') {x : MetricReport}
    (hx : x ∈ q'.worker.inHand ++ q'.channel) : x ∈ q.worker.inHand ++ q.channel := by
  cases hm with
  | take hw hc => simpa [hw, hc, Worker.inHand] using hx
  | finish _ hc => rw [hc] at hx; cases hx
  | more hw _ hc =>
    rcases hw with hw | hw <;> simpa [hw, hc, Worker.inHand, or_assoc] using hx
  | block hw _ hc => simpa [hw, hc, Worker.inHand] using hx
  | cut hw => rcases hw with hw | hw <;> simpa [hw, Worker.inHand] using hx
  | write hw | settle hw | latch hw =>
    exact List.mem_append_right _ hx
  | unwind => cases hx
  | readClock hw | retry hw | giveUp hw | noteError hw | setRetrying hw | setRunning hw | countPersisted hw
    | setThrough hw | noteFailure hw | setFailed hw => simpa [hw, Worker.inHand] using hx

theorem lost_of_work {act : WorkerAct} (hm : WorkerMove q act q') {x : MetricReport} (hx : x ∈ q'.lost) :
    x ∈ q.worker.inHand ++ (q.channel ++ q.lost) := by
  cases hm with
  | unwind hw =>
    rw [hw, ← List.append_assoc]
    exact List.mem_append_left _ hx
  | _ => exact List.mem_append_right _ (List.mem_append_right _ hx)

theorem aside_of_work {act : WorkerAct} (hm : WorkerMove q act q') : q.Aside r q' := by
  refine ⟨fun h x hx => h x (queued_of_work hm hx), fun h x hx => ?_, [], ?_, nofun⟩
  · rw [← List.append_assoc] at hx
    rcases List.mem_append.mp hx with hx | hx
    · exact h.idle x (queued_of_work hm hx)
    · exact h x (lost_of_work hm hx)
  · rw [(workerMove_frame hm).1, List.append_nil]

theorem aside_of_step (hs : q.step act = some q') (ht : Tagged q)
    (hr : ∀ k now, act = .call now → q.call = some k → q.receiver = true → k.runId ≠ r) : q.Aside r q' := by
  have hsame : q'.worker = q.worker → q'.channel = q.channel → q'.lost = q.lost → q'.accepted = q.accepted →
      q.Aside r q' := by
    intro hw hc hl ha
    refine ⟨fun h => ?_, fun h => ?_, [], by rw [ha, List.append_nil], nofun⟩
    · unfold Reporter.Idle; rw [hw, hc]; exact h
    · unfold Reporter.Written; rw [hw, hc, hl]; exact h
  cases act with
  | report runId key n v =>
    simp only [Reporter.step, Reporter.reportMetric] at hs
    split at hs
    · cases hs
    · split at hs <;> (cases hs; exact hsame rfl rfl rfl rfl)
  | call now =>
    obtain ⟨k, hk, rfl⟩ := Option.map_eq_some_iff.mp hs
    unfold Reporter.callStep at hsame ⊢
    cases hp : k.pc with
    | send report =>
      rw [hp] at hsame
      by_cases hrec : q.receiver = true
      · have hne : report.runId ≠ r := by
          rw [ht k report hk hp]; exact hr k now rfl hk hrec
        simp only [hrec, Bool.not_true, Bool.false_eq_true, ite_false] at hsame ⊢
        split
        · -- the report comes in behind the others
          refine ⟨fun h x hx => ?_, fun h x hx => ?_, [report], rfl, by simpa using hne⟩
          · rcases List.mem_append.mp hx with hx | hx
            · exact h x (List.mem_append_left _ hx)
            · rcases List.mem_append.mp hx with hx | hx
              · exact h x (List.mem_append_right _ hx)
              · rw [List.mem_singleton.mp hx]; exact hne
          · rcases List.mem_append.mp hx with hx | hx
            · exact h x (List.mem_append_left _ hx)
            · rcases List.mem_append.mp hx with hx | hx
              · rcases List.mem_append.mp hx with hx | hx
                · exact h x (List.mem_append_right _ (List.mem_append_left _ hx))
                · rw [List.mem_singleton.mp hx]; exact hne
              · exact h x (List.mem_append_right _ (List.mem_append_right _ hx))
        · exact ⟨id, id, [], (List.append_nil _).symm, nofun⟩
      · simp only [hrec, Bool.not_false, ite_true] at hsame ⊢
        exact ⟨id, id, [], (List.append_nil _).symm, nofun⟩
    | check =>
      dsimp only
      split <;> exact ⟨id, id, [], (List.append_nil _).symm, nofun⟩
    | _ => exact ⟨id, id, [], (List.append_nil _).symm, nofun⟩
  | work act => exact aside_of_work (workerMove_of_step (s := q) hs)
  | takeSender =>
    simp only [Reporter.step] at hs
    split at hs
    · cases hs
    · cases hs; exact hsame rfl rfl rfl rfl
  | takeWorker | setWriterClosed => cases hs; exact hsame rfl rfl rfl rfl

theorem rows_of_step (hs : q.step act = some q') : ∃ rows, q'.written = q.written ++ rows ∧
    ∀ row ∈ rows, ∃ report ∈ q.worker.inHand, RowOf row report := by
  by_cases hq : ∃ a, act = .work a
  · obtain ⟨a, rfl⟩ := hq
    cases workerMove_of_step (s := q) hs with
    | write hw => exact ⟨_, rfl, fun row hrow => by rw [hw]; exact RowOf.mem (writeMetricBatch_rows ..) hrow⟩
    | retry hw | giveUp hw =>
      refine ⟨_, rfl, fun row hrow => ?_⟩
      rw [hw]; exact RowOf.mem (writeMetricBatch_rows ..) (List.mem_of_mem_take hrow)
    | _ => exact ⟨[], (List.append_nil _).symm, nofun⟩
  · obtain ⟨-, hw, -⟩ := reporter_step_quiet hs fun a e => hq ⟨a, e⟩
    exact ⟨[], by rw [hw, List.append_nil], nofun⟩

end

/-! ## A drain of the run -/

/-- The barrier of the drain counts every accepted report of the run. -/
def Drain.Covers (q : Reporter) (r : RunId) : Drain → Prop
  | .idle => True
  | .load barrier _ | .check barrier _ | .deadline barrier _ | .final barrier _ | .done barrier _ _ =>
    ∀ report ∈ q.accepted.drop barrier, report.runId ≠ r

theorem Drain.Covers.aside {q q' : Reporter} {r : RunId} {d : Drain} (h : d.Covers q r) (ha : q.Aside r q') :
    d.Covers q' r := by
  obtain ⟨more, hm, hne⟩ := ha.accepted
  have hdrop : ∀ barrier, (∀ report ∈ q.accepted.drop barrier, report.runId ≠ r) →
      ∀ report ∈ q'.accepted.drop barrier, report.runId ≠ r := by
    intro barrier hb report hr
    rw [hm, List.drop_append] at hr
    rcases List.mem_append.mp hr with hr | hr
    · exact hb report hr
    · exact hne report (List.mem_of_mem_drop hr)
  cases d with
  | idle => trivial
  | _ => exact hdrop _ h

theorem Drain.Covers.step {q : Reporter} {r : RunId} {d d' : Drain} {expired : Bool} (h : d.Covers q r)
    (ho : Ordered q) (hs : d.step q expired = some d') : d'.Covers q r := by
  cases d with
  | idle =>
    simp only [Drain.step] at hs
    split at hs
    · cases hs
    · rename_i hc
      cases hs
      have hcall : q.call = none := by simpa using hc
      have hnext := ho.next
      simp only [Reporter.uncounted, hcall, Option.map_none, Nat.add_zero] at hnext
      show ∀ report ∈ q.accepted.drop (q.nextEnqueueSequence - 1), _
      rw [hnext, Nat.add_sub_cancel, List.drop_length]
      simp
  | done barrier seen result => cases hs
  | _ =>
    simp only [Drain.step] at hs
    split at hs <;> (cases hs; exact h)

theorem Drain.Covers.written {q : Reporter} {r : RunId} {barrier : Nat} {seen : List MetricReport}
    (h : (Drain.done barrier seen (.ok ())).Covers q r) (hs : (Drain.done barrier seen (.ok ())).Sound q)
    (ho : Ordered q) : q.Written r := by
  intro report hr
  have hthrough := ho.through
  have hb : barrier ≤ q.acknowledged.length := by
    have := hs.2
    omega
  refine h report ?_
  rw [ho.order, List.drop_append_of_le_length hb]
  exact List.mem_append_right _ hr

/-! ## Rows -/

theorem RowOf.filter {rows : List MetricPointRow} {reports : List MetricReport} (r : RunId)
    (h : List.Forall₂ RowOf rows reports) :
    List.Forall₂ RowOf (rows.filter fun row => row.runId == r) (reports.filter fun x => x.runId == r) := by
  induction h with
  | nil => exact .nil
  | @cons row report rows reports hr _ ih =>
    have hid : row.runId = report.runId := by rw [hr]; rfl
    rw [List.filter_cons, List.filter_cons, hid]
    split
    · exact .cons hr ih
    · exact ih

/-- With no report of the run unwritten, each accepted one has a row of its own. -/
theorem Reporter.Written.rows {q : Reporter} {r : RunId} (h : q.Written r) (ho : Ordered q) (hs : Stamped q) :
    ∃ rows, rows.Sublist q.written ∧
      List.Forall₂ RowOf rows (q.accepted.filter fun report => report.runId == r) := by
  refine ⟨q.written.filter fun row => row.runId == r, List.filter_sublist, ?_⟩
  have hnone : ((q.worker.inHand ++ (q.channel ++ q.lost)).filter fun report => report.runId == r) = [] := by
    rw [List.filter_eq_nil_iff]
    intro report hr
    simpa using h report hr
  rw [ho.order, List.filter_append, hnone, List.append_nil]
  exact RowOf.filter r hs.rows

end Pulseon
