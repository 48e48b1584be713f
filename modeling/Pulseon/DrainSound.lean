import Pulseon.ReporterSound
import Mathlib.Data.List.Forall2

/-!
# Order of the written rows and soundness of drain

When failed appends leave the table alone, the rows written are the first
accepted reports, once each, in enqueue order, with increasing stamps; a drain
that returns `Ok` has waited for every report that returned before its barrier.
-/

namespace Pulseon

/-! ## Stamped batches -/

/-- The row is the report's, whatever its stamp. -/
def RowOf (row : MetricPointRow) (r : MetricReport) : Prop :=
  row = (⟨r.runId, r.metricKey, r.step, r.timestampMillis, r.valueF64, row.ingestedAt⟩ : MetricWrite).row

theorem stampBatch_next (batch : List MetricReport) (t : Int) :
    (stampBatch batch t).2 = t + batch.length := by
  induction batch generalizing t with
  | nil => simp [stampBatch]
  | cons r rs ih =>
    simp only [stampBatch, ih, List.length_cons]
    omega

theorem stampBatch_rows (batch : List MetricReport) (t : Int) :
    List.Forall₂ RowOf ((stampBatch batch t).1.map MetricWrite.row) batch := by
  induction batch generalizing t with
  | nil => exact .nil
  | cons r rs ih => exact .cons rfl (ih (t + 1))

theorem stampBatch_stamps (batch : List MetricReport) (t : Int) :
    ((stampBatch batch t).1.map MetricWrite.row).map MetricPointRow.ingestedAt =
      (List.range batch.length).map fun i => t + (i : Nat) := by
  induction batch generalizing t with
  | nil => rfl
  | cons r rs ih =>
    simp only [stampBatch, List.map_cons, ih, List.length_cons, List.range_succ_eq_map, List.map_map]
    refine congrArg₂ List.cons ?_ (List.map_congr_left fun i _ => ?_)
    · simp [MetricWrite.row]
    · simp only [Function.comp_apply, Nat.succ_eq_add_one]; omega

section
variable (batch : List MetricReport) (next now : Int)

theorem writeMetricBatch_next : (writeMetricBatch batch next now).2 = max next now + batch.length :=
  stampBatch_next batch _

theorem writeMetricBatch_rows : List.Forall₂ RowOf (writeMetricBatch batch next now).1 batch :=
  stampBatch_rows batch _

theorem writeMetricBatch_stamps : (writeMetricBatch batch next now).1.map MetricPointRow.ingestedAt =
    (List.range batch.length).map fun i => max next now + (i : Nat) :=
  stampBatch_stamps batch _

theorem writeMetricBatch_increasing :
    (writeMetricBatch batch next now).1.Pairwise fun x y => x.ingestedAt < y.ingestedAt := by
  rw [← List.pairwise_map, writeMetricBatch_stamps, List.pairwise_map]
  refine List.Pairwise.imp (fun {a b} h => ?_) (List.pairwise_lt_range)
  omega

theorem mem_writeMetricBatch {row : MetricPointRow} (h : row ∈ (writeMetricBatch batch next now).1) :
    max next now ≤ row.ingestedAt ∧ row.ingestedAt < max next now + batch.length := by
  have := List.mem_map_of_mem (f := MetricPointRow.ingestedAt) h
  rw [writeMetricBatch_stamps] at this
  obtain ⟨i, hi, he⟩ := List.mem_map.mp this
  rw [List.mem_range] at hi
  omega

end

/-! ## Rows in enqueue order -/

def Worker.next? : Worker → Option Int
  | .recv next | .poll next _ | .wait next _ | .write next _ _ | .noteError next _ _ _ => some next
  | .setRetrying next _ _ | .setRunning next _ | .countPersisted next _ => some next
  | .setThrough next _ | .settle next _ => some next
  | _ => none

/-- A failed append leaves the table unchanged. -/
def LeavesTable : ReporterAct → Prop
  | .work (.writeFail _ kept _) => kept = 0
  | _ => True

structure Stamped (s : Reporter) : Prop where
  rows : List.Forall₂ RowOf s.written s.acknowledged
  increasing : s.written.Pairwise fun x y => x.ingestedAt < y.ingestedAt
  below : ∀ next, s.worker.next? = some next → ∀ row ∈ s.written, row.ingestedAt < next
  started : s.worker = .start → s.written = []

theorem stamped_init (capacity : Nat) : Stamped { capacity := capacity } :=
  ⟨.nil, List.Pairwise.nil, (fun _ h => by cases h), fun _ => rfl⟩

theorem Stamped.write {s : Reporter} {next : Int} {batch : List MetricReport} {n : Nat} (h : Stamped s)
    (hw : s.worker = .write next batch n) (now : Int) :
    Stamped { s with
      worker := .setRunning (writeMetricBatch batch next now).2 batch
      written := s.written ++ (writeMetricBatch batch next now).1
      acknowledged := s.acknowledged ++ batch } := by
  have hold : ∀ row ∈ s.written, row.ingestedAt < next := h.below next (by rw [hw]; rfl)
  refine ⟨List.rel_append h.rows (writeMetricBatch_rows batch next now), ?_, ?_, fun he => by cases he⟩
  · refine List.pairwise_append.mpr ⟨h.increasing, writeMetricBatch_increasing batch next now, ?_⟩
    intro x hx y hy
    have := hold x hx
    have := (mem_writeMetricBatch batch next now hy).1
    omega
  · intro next' hn row hrow
    simp only [Worker.next?, Option.some.injEq] at hn
    rw [← hn, writeMetricBatch_next]
    rcases List.mem_append.mp hrow with hr | hr
    · have := hold row hr
      omega
    · exact (mem_writeMetricBatch batch next now hr).2

theorem Stamped.work {s t : Reporter} {act : WorkerAct} (h : Stamped s) (hm : WorkerMove s act t)
    (hl : LeavesTable (.work act)) : Stamped t := by
  have hbelow := h.below
  cases hm with
  | write hw => exact h.write hw _
  | readClock hw =>
    refine ⟨h.rows, h.increasing, fun next hn row hrow => ?_, fun he => by cases he⟩
    rw [h.started hw] at hrow
    cases hrow
  | retry hw =>
    cases hl
    rw [hw] at hbelow
    simp only [List.take_zero, List.append_nil]
    exact ⟨h.rows, h.increasing, hbelow, fun he => by cases he⟩
  | giveUp hw =>
    cases hl
    simp only [List.take_zero, List.append_nil]
    exact ⟨h.rows, h.increasing, (fun _ he => by cases he), fun he => by cases he⟩
  | more hw | cut hw =>
    rcases hw with hw | hw <;>
      (rw [hw] at hbelow; exact ⟨h.rows, h.increasing, hbelow, fun he => by cases he⟩)
  | take hw | block hw | noteError hw | setRetrying hw | setRunning hw | countPersisted hw
    | setThrough hw | settle hw =>
    rw [hw] at hbelow
    exact ⟨h.rows, h.increasing, hbelow, fun he => by cases he⟩
  | finish hw | noteFailure hw | setFailed hw | unwind hw | latch hw =>
    exact ⟨h.rows, h.increasing, (fun _ he => by cases he), fun he => by cases he⟩

theorem Stamped.step {s t : Reporter} {act : ReporterAct} (h : Stamped s) (hl : LeavesTable act)
    (hs : s.step act = some t) : Stamped t := by
  by_cases hq : ∃ a, act = .work a
  · obtain ⟨a, rfl⟩ := hq
    exact h.work (workerMove_of_step hs) hl
  · obtain ⟨hw, hr, ha, -⟩ := reporter_step_quiet hs fun a e => hq ⟨a, e⟩
    exact ⟨hr ▸ ha ▸ h.rows, hr ▸ h.increasing, hw ▸ hr ▸ h.below, hw ▸ hr ▸ h.started⟩

/-! ## drain -/

/-- The barrier counts what had returned when it was read, and a drain past its
loop has seen it published. -/
def Drain.Sound (r : Reporter) : Drain → Prop
  | .idle => True
  | .load barrier seen | .check barrier seen | .deadline barrier seen =>
    seen = r.accepted.take barrier ∧ barrier ≤ r.accepted.length
  | .final barrier seen | .done barrier seen (.ok ()) =>
    (seen = r.accepted.take barrier ∧ barrier ≤ r.accepted.length) ∧
      barrier ≤ r.diagnostics.persistedThroughSequence
  | .done barrier seen (.error _) => seen = r.accepted.take barrier ∧ barrier ≤ r.accepted.length

theorem Drain.Sound.mono {r r' : Reporter} {d : Drain} (h : d.Sound r) (ha : r.accepted <+: r'.accepted)
    (hp : r.diagnostics.persistedThroughSequence ≤ r'.diagnostics.persistedThroughSequence) :
    d.Sound r' := by
  have hseen : ∀ (barrier : Nat) (seen : List MetricReport),
      seen = r.accepted.take barrier ∧ barrier ≤ r.accepted.length →
        seen = r'.accepted.take barrier ∧ barrier ≤ r'.accepted.length := by
    intro barrier seen ⟨hs, hb⟩
    obtain ⟨rest, hrest⟩ := ha
    rw [← hrest]
    refine ⟨?_, by rw [List.length_append]; omega⟩
    rw [hs, List.take_append_of_le_length hb]
  unfold Drain.Sound at h ⊢
  split at h
  · trivial
  · exact hseen _ _ h
  · exact hseen _ _ h
  · exact hseen _ _ h
  · exact ⟨hseen _ _ h.1, Nat.le_trans h.2 hp⟩
  · exact ⟨hseen _ _ h.1, Nat.le_trans h.2 hp⟩
  · exact hseen _ _ h

theorem Drain.Sound.step {r : Reporter} {d d' : Drain} {expired : Bool} (h : d.Sound r) (ho : Ordered r)
    (hs : d.step r expired = some d') : d'.Sound r := by
  cases d with
  | idle =>
    simp only [Drain.step] at hs
    split at hs
    · cases hs
    · rename_i hc
      cases hs
      have hcall : r.call = none := by simpa using hc
      have hret := ho.returned
      have hnext := ho.next
      simp only [Reporter.sent, Reporter.uncounted, hcall, Option.map_none, List.append_nil,
        Nat.add_zero] at hret hnext
      simp only [Drain.Sound, hnext, Nat.add_sub_cancel, List.take_length, Nat.le_refl, and_true, hret]
  | load barrier seen =>
    simp only [Drain.step] at hs
    split at hs
    · cases hs; exact h
    · rename_i hb
      cases hs; exact ⟨h, Nat.le_of_not_lt hb⟩
  | check barrier seen =>
    simp only [Drain.step] at hs
    split at hs <;> (cases hs; exact h)
  | deadline barrier seen =>
    simp only [Drain.step] at hs
    split at hs <;> (cases hs; exact h)
  | final barrier seen =>
    simp only [Drain.step] at hs
    split at hs
    · cases hs; exact h.1
    · cases hs; exact h
  | done barrier seen result => cases hs

/-! ## Runs -/

/-- What a reporter with drains on it keeps. -/
structure DrainingInv (s : Draining) : Prop where
  ordered : Ordered s.reporter
  stamped : Stamped s.reporter
  drains : ∀ i, (s.drains i).Sound s.reporter

def DrainingAct.LeavesTable : DrainingAct → Prop
  | .reporter act => Pulseon.LeavesTable act
  | .drain _ _ => True

theorem drainingInv_step {s t : Draining} {act : DrainingAct} (h : DrainingInv s) (hl : act.LeavesTable)
    (hs : s.step act = some t) : DrainingInv t := by
  cases act with
  | reporter act =>
    simp only [Draining.step, Option.map_eq_some_iff] at hs
    obtain ⟨r, hr, rfl⟩ := hs
    obtain ⟨ha, hp⟩ := reporter_step_grows hr
    exact ⟨h.ordered.step hr, h.stamped.step hl hr, fun i => (h.drains i).mono ha hp⟩
  | drain i expired =>
    simp only [Draining.step, Option.map_eq_some_iff] at hs
    obtain ⟨d, hd, rfl⟩ := hs
    refine ⟨h.ordered, h.stamped, fun j => ?_⟩
    by_cases hj : j = i
    · simp only [hj, ite_true]
      exact (h.drains i).step h.ordered hd
    · simp only [hj, ite_false]
      exact h.drains j

/-- In every reachable state the rows written are the first accepted reports,
in order and with increasing stamps, and they include every report that had
returned when a drain that returned `Ok` read its barrier. -/
theorem drain_order_sound {capacity : Nat} {acts : List DrainingAct} {s : Draining}
    (h : exec Draining.step { reporter := { capacity := capacity } } acts = some s)
    (hl : ∀ act ∈ acts, act.LeavesTable) :
    ∃ k ≤ s.reporter.accepted.length,
      List.Forall₂ RowOf s.reporter.written (s.reporter.accepted.take k) ∧
      (s.reporter.written.Pairwise fun x y => x.ingestedAt < y.ingestedAt) ∧
      ∀ i barrier seen, s.drains i = .done barrier seen (.ok ()) →
        ∀ r ∈ seen, r ∈ s.reporter.accepted.take k := by
  have hinv : DrainingInv s :=
    exec_inv Draining.step (C := fun _ act => act.LeavesTable)
      (fun _ _ _ hc hs hi => drainingInv_step hi hc hs)
      (meets_of_forall Draining.step (fun _ act hact => hl act hact) _) h
      ⟨ordered_init capacity, stamped_init capacity, fun _ => trivial⟩
  have hord := hinv.ordered.order
  have htake : s.reporter.accepted.take s.reporter.acknowledged.length = s.reporter.acknowledged := by
    rw [hord, List.take_left]
  refine ⟨s.reporter.acknowledged.length, ?_, ?_, hinv.stamped.increasing, ?_⟩
  · rw [hord, List.length_append]; omega
  · rw [htake]; exact hinv.stamped.rows
  · intro i barrier seen hd r hr
    have hsound := hinv.drains i
    rw [hd] at hsound
    obtain ⟨⟨rfl, -⟩, hb⟩ := hsound
    have hthrough := hinv.ordered.through
    exact List.take_subset_take_left _ (by omega) hr

/-- A drain waits out one report whose batch is written at the second attempt. -/
def drainRun : List DrainingAct := List.flatten
  [[.reporter (.work (.readClock 7)), .reporter (.report "r" "k" 0 ⟨0⟩)],
    List.replicate 5 (.reporter (.call 3)), List.replicate 2 (.drain 0 false),
    List.replicate 2 (.reporter (.work .go)),
    [.reporter (.work .timeout), .reporter (.work (.writeFail 9 0 "io")), .reporter (.work .go),
      .reporter (.work .go), .reporter (.work (.write 5))],
    List.replicate 4 (.reporter (.work .go)), List.replicate 4 (.drain 0 false)]

theorem drain_order_sound_run : ∃ s k,
    exec Draining.step { reporter := { capacity := 1 } } drainRun = some s ∧
      (∃ seen, s.drains 0 = .done 1 seen (.ok ()) ∧ seen.length = 1) ∧
      List.Forall₂ RowOf s.reporter.written (s.reporter.accepted.take k) ∧
      ∀ i barrier seen, s.drains i = .done barrier seen (.ok ()) →
        ∀ r ∈ seen, r ∈ s.reporter.accepted.take k := by
  have hrun : ∃ s, exec Draining.step { reporter := { capacity := 1 } } drainRun = some s ∧
      ∃ seen, s.drains 0 = .done 1 seen (.ok ()) ∧ seen.length = 1 := ⟨_, rfl, _, rfl, rfl⟩
  obtain ⟨s, hs, hd⟩ := hrun
  obtain ⟨k, -, hrows, -, hdone⟩ := drain_order_sound hs
    (by simp [drainRun, DrainingAct.LeavesTable, LeavesTable])
  exact ⟨s, k, hs, hd, hrows, hdone⟩

end Pulseon
