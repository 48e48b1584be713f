import Pulseon.EffectiveSound

/-!
# Retries and the effective view

Failed attempts at a batch may leave rows of it in the table. They are rows of
the batch's own points, so every other point keeps its effective value; whether
the attempt that succeeds outranks them depends on the clock, since the counter
the stamps start from is that of before the first attempt.
-/

namespace Pulseon

section
variable (points : List MetricPointRow)

/-- At an attempt that succeeds, no row of the table is newer than the last row
the attempt writes for its point, unless it holds the same value. -/
def OutranksStored (s : Reporter) : ReporterAct → Prop
  | .work (.write now) => ∀ next batch n, s.worker = .write next batch n →
      ∀ pre r post, batch = pre ++ r :: post → (∀ r' ∈ post, r'.pointId ≠ r.pointId) →
        ∀ row, effectiveRow (points ++ s.written) r.pointId = some row →
          row.ingestedAt ≤ max next now + pre.length ∨ row.valueF64 = r.valueF64
  | _ => True

def AckedShown (s : Reporter) : Prop :=
  ∀ next batch, s.worker = .setRunning next batch → ∀ id, Shows (points ++ s.written) s.acknowledged id

/-- The points outside the batch in hand show their last acknowledged report. -/
structure OthersShown (s : Reporter) : Prop where
  encoded : Encoded s.written
  others : s.worker.gaveUp = false → ∀ id, (∀ r ∈ s.worker.inHand, r.pointId ≠ id) →
    Shows (points ++ s.written) s.acknowledged id

variable {points} (he : Encoded points)
include he

theorem shows_iff {written : List MetricPointRow} (hw : Encoded written) (reports : List MetricReport)
    (id : PointId) : Shows (points ++ written) reports id ↔ ∀ r, lastReport reports id = some r →
      (newestRow (points ++ written) id).map MetricPointRow.valueF64 = some r.valueF64 := by
  unfold Shows
  rw [effectiveRow_eq (encoded_append.mpr ⟨he, hw⟩)]

theorem Shows.append {written rows : List MetricPointRow} {reports : List MetricReport} {id : PointId}
    (hw : Encoded written) (hr : Encoded rows) (hn : newestRow rows id = none)
    (h : Shows (points ++ written) reports id) : Shows (points ++ (written ++ rows)) reports id := by
  rw [shows_iff he (encoded_append.mpr ⟨hw, hr⟩)]
  rw [shows_iff he hw] at h
  intro r hl
  rw [← List.append_assoc, newestRow_append, hn, newer_none_right]
  exact h r hl

/-- Acknowledging a batch whose other points are shown shows all points exactly
when the batch outranks the stored rows. -/
theorem shows_write_iff {written : List MetricPointRow} {reports batch : List MetricReport}
    (hw : Encoded written) (next now : Int)
    (ho : ∀ id, (∀ r ∈ batch, r.pointId ≠ id) → Shows (points ++ written) reports id) :
    (∀ id, Shows (points ++ (written ++ (writeMetricBatch batch next now).1)) (reports ++ batch) id) ↔
      ∀ pre r post, batch = pre ++ r :: post → (∀ r' ∈ post, r'.pointId ≠ r.pointId) →
        ∀ row, effectiveRow (points ++ written) r.pointId = some row →
          row.ingestedAt ≤ max next now + pre.length ∨ row.valueF64 = r.valueF64 := by
  have hrows : Encoded (writeMetricBatch batch next now).1 :=
    RowOf.encoded (writeMetricBatch_rows batch next now)
  have hold : ∀ id, effectiveRow (points ++ written) id = newestRow (points ++ written) id :=
    effectiveRow_eq (encoded_append.mpr ⟨he, hw⟩)
  have hnew : ∀ id, newestRow (points ++ (written ++ (writeMetricBatch batch next now).1)) id =
      newer (fun row => row.ingestedAt) (newestRow (points ++ written) id)
        (newestRow (writeMetricBatch batch next now).1 id) := by
    intro id; rw [← List.append_assoc, newestRow_append]
  constructor
  · intro h pre r post hb hpost row hrow
    have hl := lastReport_some.mpr ⟨pre, post, hb, rfl, hpost⟩
    have := (shows_iff he (encoded_append.mpr ⟨hw, hrows⟩) _ _).mp (h r.pointId) r
      (by rw [lastReport_append, hl, Option.some_or])
    rw [hold] at hrow
    rw [hnew, hrow, hb, newestRow_batch hpost] at this
    exact newer_value.mp this
  · intro hc id
    cases hl : lastReport batch id with
    | none =>
      have hnot := lastReport_none.mp hl
      have := (ho id hnot).append he hw hrows (newestRow_batch_none hnot next now)
      unfold Shows at this ⊢
      rw [lastReport_append, hl, Option.none_or]
      exact this
    | some r =>
      rw [shows_iff he (encoded_append.mpr ⟨hw, hrows⟩), lastReport_append, hl, Option.some_or]
      intro r' hr'
      cases hr'
      obtain ⟨pre, post, rfl, rfl, hpost⟩ := lastReport_some.mp hl
      rw [hnew, newestRow_batch hpost]
      cases hrow : newestRow (points ++ written) r.pointId with
      | none => rfl
      | some row => exact newer_value.mpr (hc pre r post rfl hpost row ((hold _).trans hrow))

theorem othersShown_work {s t : Reporter} {act : WorkerAct} (h : OthersShown points s) (ht : AckedShown points t)
    (hm : WorkerMove s act t) : OthersShown points t := by
  have hothers := h.others
  have hkept : ∀ next batch now kept, Encoded (s.written ++ (writeMetricBatch batch next now).1.take kept) := by
    intro next batch now kept
    refine encoded_append.mpr ⟨h.encoded, fun row hrow => ?_⟩
    exact RowOf.encoded (writeMetricBatch_rows batch next now) row (List.mem_of_mem_take hrow)
  cases hm with
  | readClock hw | take hw | finish hw =>
    rw [hw] at hothers
    exact ⟨h.encoded, fun _ id _ => hothers rfl id (by simp [Worker.inHand])⟩
  | more hw =>
    refine ⟨h.encoded, fun _ id hid => ?_⟩
    rcases hw with hw | hw <;>
      (rw [hw] at hothers; exact hothers rfl id fun r hr => hid r (List.mem_append_left _ hr))
  | cut hw => rcases hw with hw | hw <;> (rw [hw] at hothers; exact ⟨h.encoded, hothers⟩)
  | block hw | noteError hw | setRetrying hw | setRunning hw | countPersisted hw | setThrough hw
    | settle hw => rw [hw] at hothers; exact ⟨h.encoded, hothers⟩
  | write hw =>
    exact ⟨encoded_append.mpr ⟨h.encoded, RowOf.encoded (writeMetricBatch_rows _ _ _)⟩,
      fun _ id _ => ht _ _ rfl id⟩
  | retry hw hn =>
    rw [hw] at hothers
    refine ⟨hkept _ _ _ _, fun _ id hid => ?_⟩
    -- the rows left behind belong to the points of the batch
    refine (hothers rfl id hid).append he h.encoded (encoded_append.mp (hkept _ _ _ _)).2 ?_
    exact newestRow_none.mpr fun row hrow =>
      newestRow_none.mp (newestRow_batch_none hid _ _) row (List.mem_of_mem_take hrow)
  | giveUp hw hn => exact ⟨hkept _ _ _ _, fun he => by cases he⟩
  | noteFailure hw | setFailed hw | unwind hw | latch hw => exact ⟨h.encoded, fun he => by cases he⟩

/-- Every acknowledged batch leaves its points and all others at their last
acknowledged report, exactly when no successful attempt is outranked. -/
theorem retries_idempotent_iff (capacity : Nat) (acts : List ReporterAct) :
    Along Reporter.step (AckedShown points) { capacity := capacity } acts ↔
      Meets Reporter.step (OutranksStored points) { capacity := capacity } acts := by
  refine along_iff_meets Reporter.step (I := OthersShown points) ?_ ?_ ?_ ?_ ?_
  · intro s act t hs h _ ht
    by_cases hq : ∃ a, act = .work a
    · obtain ⟨a, rfl⟩ := hq
      exact othersShown_work he h ht (workerMove_of_step hs)
    · obtain ⟨hw, hr, ha, -⟩ := reporter_step_quiet hs fun a e => hq ⟨a, e⟩
      exact ⟨hr ▸ h.encoded, hw ▸ hr ▸ ha ▸ h.others⟩
  · intro s act t hs h hp
    by_cases hq : ∃ a, act = .work a
    · obtain ⟨a, rfl⟩ := hq
      have hm := workerMove_of_step (s := s) hs
      have hothers := h.others
      cases hm with
      | write hw =>
        rename_i now next batch n
        rw [hw] at hothers
        unfold AckedShown OutranksStored
        simp only [hw, Worker.setRunning.injEq, Worker.write.injEq, and_imp]
        have := shows_write_iff he h.encoded next now (hothers rfl)
        exact ⟨fun ht next batch n h1 h2 _ => by subst h1 h2; exact this.mp (ht _ _ rfl rfl),
          fun hc next batch _ _ => this.mpr (hc _ _ _ rfl rfl rfl)⟩
      | cut hw =>
        refine iff_of_true (fun next batch hn => by cases hn) ?_
        cases a <;> try trivial
        intro next batch n hn
        rcases hw with hw | hw <;> (rw [hw] at hn; cases hn)
      | _ => exact iff_of_true (fun next batch hn => by cases hn) trivial
    · obtain ⟨hw, hr, ha, -⟩ := reporter_step_quiet hs fun a e => hq ⟨a, e⟩
      refine iff_of_true (fun next batch hn => ?_) ?_
      · rw [hr, ha]; exact hp next batch (hw ▸ hn)
      · cases act with
        | work a => exact absurd ⟨a, rfl⟩ hq
        | _ => trivial
  · intro s act hs
    cases act with
    | work a =>
      cases a with
      | write now =>
        intro next batch n hw
        simp only [Reporter.step, Reporter.workerStep, hw, reduceCtorEq] at hs
      | _ => trivial
    | _ => trivial
  · exact ⟨(fun row h => by cases h), fun _ id _ r hr => by cases hr⟩
  · intro next batch h; cases h

end

/-- A first attempt at clock 9 leaves its row, the retry at clock 5 succeeds, and
the next batch rewrites the same point. -/
def retryRun : List ReporterAct := List.flatten
  [[.work (.readClock 0), .report "r" "k" 0 ⟨1⟩], List.replicate 5 (.call 0),
    List.replicate 2 (.work .go),
    [.work .timeout, .work (.writeFail 9 1 "io"), .work .go, .work .go, .work (.write 5)],
    List.replicate 4 (.work .go), [.report "r" "k" 0 ⟨2⟩], List.replicate 5 (.call 0),
    List.replicate 2 (.work .go), [.work .timeout, .work (.write 6)]]

theorem retries_idempotent_iff_run :
    Along Reporter.step (AckedShown [(⟨"r", "k", 0, 0, ⟨3⟩, -1⟩ : MetricWrite).row]) { capacity := 1 } retryRun ↔
      Meets Reporter.step (OutranksStored [(⟨"r", "k", 0, 0, ⟨3⟩, -1⟩ : MetricWrite).row])
        { capacity := 1 } retryRun :=
  retries_idempotent_iff (encoded_writes [_]) 1 retryRun

/-- A retry at an earlier clock leaves the row of the failed attempt effective,
and the next batch does not outrank it. -/
theorem retry_hides_later_value : ¬ ∀ capacity acts,
    Along Reporter.step (AckedShown []) { capacity := capacity } acts := by
  intro hall
  have hrun : ∃ s, exec Reporter.step { capacity := 1 } retryRun = some s ∧
      (∃ next batch, s.worker = .setRunning next batch) ∧
      (lastReport s.acknowledged ("r", "k", 0)).map MetricReport.valueF64 = some ⟨2⟩ ∧
      (effectiveRow s.written ("r", "k", 0)).map MetricPointRow.valueF64 = some ⟨1⟩ :=
    ⟨_, rfl, ⟨_, _, rfl⟩, rfl, rfl⟩
  obtain ⟨s, hs, ⟨next, batch, hw⟩, hl, hv⟩ := hrun
  have hshown := (along_iff Reporter.step).mp (hall 1 retryRun) _ (List.prefix_refl _) s hs next batch hw
  obtain ⟨r, hr, hr2⟩ := Option.map_eq_some_iff.mp hl
  have := hshown _ r hr
  rw [List.nil_append, hv, hr2] at this
  exact absurd this (by decide)

end Pulseon
