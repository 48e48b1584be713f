import Pulseon.ShutdownSound
import Pulseon.EffectiveSound

/-!
# Client sessions on one store

Sessions follow one another: the next reporter opens once the shutdown of the
last returned `Ok`. Appends succeed and the clock never goes backwards. The
stamps of a session start from the clock again, so the first rows of a session
may be older than the last rows of the one before.
-/

namespace Pulseon

/-- The session under way on the `points` of earlier ones; `reported` is what
those accepted, and `clock` the last clock reading. -/
structure Sessions where
  closing : Closing
  points : List MetricPointRow := []
  reported : List MetricReport := []
  clock : Int

/-- A step of the session under way, at a clock reading of `now`, or the opening
of the next session. -/
inductive SessionsAct
  | session (act : ClosingAct) (now : Int)
  | openNext (capacity : Nat)
deriving DecidableEq, Repr

/-- The step reads no other clock than `now`, and no append fails. -/
def ClosingAct.reads (now : Int) : ClosingAct → Bool
  | .call t | .work (.readClock t) | .work (.write t) => decide (t = now)
  | .work (.writeFail _ _ _) => false
  | _ => true

def Shutdown.isOk : Shutdown → Bool
  | .done (.ok ()) => true
  | _ => false

def Sessions.step (s : Sessions) : SessionsAct → Option Sessions
  | .session act now =>
    if act.reads now && decide (s.clock ≤ now) then
      (s.closing.step act).map fun c => { s with closing := c, clock := now }
    else none
  | .openNext capacity =>
    if s.closing.shutdown.isOk then
      some {
        closing := { reporter := { capacity := capacity } }
        points := s.points ++ s.closing.reporter.written
        reported := s.reported ++ s.closing.reporter.accepted
        clock := s.clock }
    else none

/-- In a closed session every point shows its last accepted report. -/
def LastWriteShown (s : Sessions) : Prop :=
  s.closing.shutdown = .done (.ok ()) →
    ∀ id, Shows (s.points ++ s.closing.reporter.written) (s.reported ++ s.closing.reporter.accepted) id

/-- When a session closes, its last row for a point is not older than the row
that was effective when the session opened, unless they hold the same value. -/
def OutranksSessions (s : Sessions) : SessionsAct → Prop
  | .session (.shutdown _) now => s.closing.shutdown = .setClosed → s.clock ≤ now →
    ∀ id row old, newestRow s.closing.reporter.written id = some row →
      effectiveRow s.points id = some old → old.ingestedAt ≤ row.ingestedAt ∨ old.valueF64 = row.valueF64
  | _ => True

/-! ## One session -/

structure SessionsInv (s : Sessions) : Prop where
  closing : ClosingInv s.closing
  stamped : Stamped s.closing.reporter
  alive : s.closing.reporter.worker.gaveUp = false
  encoded : Encoded s.points
  earlier : ∀ id, Shows s.points s.reported id

theorem sessionsInv_init (capacity : Nat) (clock : Int) :
    SessionsInv { closing := { reporter := { capacity := capacity } }, clock := clock } :=
  ⟨closingInv_init capacity, stamped_init capacity, rfl, (fun row h => by cases h), fun id r h => by cases h⟩

theorem session_step {c d : Closing} {act : ClosingAct} {now : Int} (ha : act.reads now = true)
    (hs : c.step act = some d) (hst : Stamped c.reporter) (hal : c.reporter.worker.gaveUp = false) :
    Stamped d.reporter ∧ d.reporter.worker.gaveUp = false := by
  rcases closing_cases hs with ⟨a, -, hr, -, hw⟩ | hm
  · by_cases hq : ∃ w, a = .work w
    · obtain ⟨w, rfl⟩ := hq
      rw [hw w rfl] at ha
      have hg := (gaveUp_work (workerMove_of_step (s := c.reporter) hr)).1
      cases w with
      | writeFail t kept message => cases ha
      | _ =>
        refine ⟨hst.step ?_ hr, by rw [hg, hal]; rfl⟩
        trivial
    · have hq' : ∀ w, a ≠ .work w := fun w e => hq ⟨w, e⟩
      obtain ⟨h1, -, -, -⟩ := reporter_step_quiet hr hq'
      refine ⟨hst.step ?_ hr, by rw [h1]; exact hal⟩
      cases a with
      | work w => exact absurd rfl (hq' w)
      | _ => trivial
  · rcases shutdownMove_reporter hm with he | ⟨a, hq, hr⟩
    · exact he ▸ ⟨hst, hal⟩
    · obtain ⟨h1, -, -, -⟩ := reporter_step_quiet hr hq
      refine ⟨hst.step ?_ hr, by rw [h1]; exact hal⟩
      cases a with
      | work w => exact absurd rfl (hq w)
      | _ => trivial

theorem closed_step {c d : Closing} {act : ClosingAct} (hc : ClosingInv c)
    (hd : c.shutdown = .done (.ok ())) (hs : c.step act = some d) :
    d.reporter.written = c.reporter.written ∧ d.reporter.accepted = c.reporter.accepted := by
  have hend := hc.ended
  rw [hd] at hend
  obtain ⟨⟨hsd, hx⟩, -⟩ := hend
  have hcall := hc.behind.counted.closed hsd
  cases act with
  | report runId key n v =>
    obtain ⟨r, hr, rfl⟩ := Option.map_eq_some_iff.mp hs
    simp only [Reporter.step, Reporter.reportMetric, hcall, hsd] at hr
    cases hr; exact ⟨rfl, rfl⟩
  | call now =>
    obtain ⟨r, hr, rfl⟩ := Option.map_eq_some_iff.mp hs
    simp only [Reporter.step, hcall] at hr; cases hr
  | work act =>
    obtain ⟨r, hr, rfl⟩ := Option.map_eq_some_iff.mp hs
    rw [workerMove_alive (workerMove_of_step (s := c.reporter) hr)] at hx; cases hx
  | shutdown expired =>
    obtain ⟨x, hx, rfl⟩ := Option.map_eq_some_iff.mp hs
    rw [hd] at hx; cases hx

theorem closing_rows {c : Closing} (hc : ClosingInv c) (hst : Stamped c.reporter)
    (hal : c.reporter.worker.gaveUp = false) (hd : c.shutdown = .setClosed) :
    List.Forall₂ RowOf c.reporter.written c.reporter.accepted := by
  have hend := hc.ended
  rw [hd] at hend
  have hw := Worker.exited_of_alive hend.2 hal
  obtain ⟨-, hchan, hl⟩ := hc.behind.counted.finished hw
  have horder := hc.behind.ordered.order
  simp only [hw, hchan, hl, Worker.inHand, List.append_nil] at horder
  rw [horder]; exact hst.rows

/-- Closing a session shows every point exactly when its rows outrank the
earlier ones. -/
theorem shows_close_iff {points written : List MetricPointRow} {reported accepted : List MetricReport}
    (he : Encoded points) (hp : ∀ id, Shows points reported id)
    (hrows : List.Forall₂ RowOf written accepted)
    (hinc : written.Pairwise fun x y => x.ingestedAt < y.ingestedAt) :
    (∀ id, Shows (points ++ written) (reported ++ accepted) id) ↔
      ∀ id row old, newestRow written id = some row → effectiveRow points id = some old →
        old.ingestedAt ≤ row.ingestedAt ∨ old.valueF64 = row.valueF64 := by
  have hall : Encoded (points ++ written) := encoded_append.mpr ⟨he, RowOf.encoded hrows⟩
  have hval := newestRow_rows hrows hinc
  refine forall_congr' fun id => ?_
  unfold Shows
  rw [effectiveRow_eq hall, effectiveRow_eq he, newestRow_append, lastReport_append]
  cases hl : lastReport accepted id with
  | none =>
    have hnew : newestRow written id = none := Option.map_eq_none_iff.mp ((hval id).trans (by rw [hl]; rfl))
    simp only [hnew, newer_none_right, Option.none_or, reduceCtorEq, false_implies, implies_true, iff_true]
    have := hp id
    unfold Shows at this
    rwa [effectiveRow_eq he] at this
  | some r =>
    obtain ⟨row, hrow, hv⟩ := Option.map_eq_some_iff.mp ((hval id).trans (by rw [hl]; rfl))
    simp only [hrow, Option.some_or, Option.some.injEq, forall_eq', ← hv]
    cases hold : newestRow points id with
    | none => simp
    | some old =>
      rw [newer_value]
      exact ⟨fun h row' old' h1 h2 => by cases h1; cases h2; exact h, fun h => h row old rfl rfl⟩

theorem closing_done {c d : Closing} {act : ClosingAct} (hc : ClosingInv c) (hs : c.step act = some d)
    (hd : d.shutdown = .done (.ok ())) :
    (d.reporter.written = c.reporter.written ∧ d.reporter.accepted = c.reporter.accepted) ∧
      (c.shutdown = .done (.ok ()) ∨ c.shutdown = .setClosed ∧ ∃ expired, act = .shutdown expired) := by
  cases act with
  | shutdown expired =>
    obtain ⟨⟨r, e⟩, hx, rfl⟩ := Option.map_eq_some_iff.mp hs
    have hm := shutdownMove_of_step hx
    dsimp only at hd ⊢
    rw [hd] at hm
    obtain ⟨hset, rfl⟩ := hm.done_ok
    exact ⟨⟨rfl, rfl⟩, Or.inr ⟨hset, expired, rfl⟩⟩
  | report | call | work =>
    obtain ⟨r, hr, rfl⟩ := Option.map_eq_some_iff.mp hs
    exact ⟨closed_step hc hd hs, Or.inl hd⟩

/-! ## Runs of sessions -/

theorem sessions_step_cases {s t : Sessions} {act : SessionsAct} (h : s.step act = some t) :
    (∃ act' now d, act = .session act' now ∧ act'.reads now = true ∧ s.clock ≤ now ∧
      s.closing.step act' = some d ∧ t = { s with closing := d, clock := now }) ∨
    ∃ capacity, act = .openNext capacity ∧ s.closing.shutdown = .done (.ok ()) ∧
      t = { closing := { reporter := { capacity := capacity } }
            points := s.points ++ s.closing.reporter.written
            reported := s.reported ++ s.closing.reporter.accepted
            clock := s.clock } := by
  cases act with
  | session act' now =>
    simp only [Sessions.step] at h
    split at h
    · rename_i hg
      obtain ⟨d, hd, rfl⟩ := Option.map_eq_some_iff.mp h
      simp only [Bool.and_eq_true, decide_eq_true_eq] at hg
      exact Or.inl ⟨act', now, d, rfl, hg.1, hg.2, hd, rfl⟩
    · cases h
  | openNext capacity =>
    simp only [Sessions.step] at h
    split at h
    · rename_i hok
      cases h
      refine Or.inr ⟨capacity, rfl, ?_, rfl⟩
      unfold Shutdown.isOk at hok
      split at hok
      · assumption
      · cases hok
    · cases h

theorem sessionsInv_step {s t : Sessions} {act : SessionsAct} (hs : s.step act = some t) (h : SessionsInv s)
    (hp : LastWriteShown s) : SessionsInv t := by
  rcases sessions_step_cases hs with ⟨act', now, d, -, hrd, -, hd, rfl⟩ | ⟨capacity, -, hd, rfl⟩
  · obtain ⟨h1, h2⟩ := session_step hrd hd h.stamped h.alive
    exact ⟨closingInv_step hd h.closing, h1, h2, h.encoded, h.earlier⟩
  · refine ⟨closingInv_init capacity, stamped_init capacity, rfl, ?_, hp hd⟩
    exact encoded_append.mpr ⟨h.encoded, RowOf.encoded h.stamped.rows⟩

theorem lastWriteShown_step {s t : Sessions} {act : SessionsAct} (hs : s.step act = some t)
    (h : SessionsInv s) (hp : LastWriteShown s) : LastWriteShown t ↔ OutranksSessions s act := by
  rcases sessions_step_cases hs with ⟨act', now, d, rfl, hrd, hle, hd, rfl⟩ | ⟨capacity, rfl, hd, rfl⟩
  · by_cases hclose : s.closing.shutdown = .setClosed ∧ ∃ expired, act' = .shutdown expired
    · obtain ⟨hset, expired, rfl⟩ := hclose
      have hdone : d.shutdown = .done (.ok ()) := by
        obtain ⟨x, hx, rfl⟩ := Option.map_eq_some_iff.mp hd
        rw [hset] at hx; cases hx; rfl
      obtain ⟨⟨hw, ha⟩, -⟩ := closing_done h.closing hd hdone
      have := shows_close_iff h.encoded h.earlier (closing_rows h.closing h.stamped h.alive hset)
        h.stamped.increasing
      simp only [LastWriteShown, OutranksSessions, hdone, hset, hle, hw, ha, forall_const]
      exact this
    · refine iff_of_true (fun hdone => ?_) ?_
      · obtain ⟨⟨hw, ha⟩, hor⟩ := closing_done h.closing hd hdone
        have := hp (hor.resolve_right hclose)
        dsimp only
        rw [hw, ha]; exact this
      · cases act' with
        | shutdown expired => intro hset; exact absurd ⟨hset, expired, rfl⟩ hclose
        | _ => trivial
  · exact iff_of_true (fun hdone => by cases hdone) trivial

/-- Over any sessions that succeed one another, every closed session shows the
last accepted report of every point exactly when each session's last row for a
point outranks the rows of the sessions before it. -/
theorem last_write_wins_iff (capacity : Nat) (clock : Int) (acts : List SessionsAct) :
    Along Sessions.step LastWriteShown
        { closing := { reporter := { capacity := capacity } }, clock := clock } acts ↔
      Meets Sessions.step OutranksSessions
        { closing := { reporter := { capacity := capacity } }, clock := clock } acts := by
  refine along_iff_meets Sessions.step (I := SessionsInv) ?_ ?_ ?_ (sessionsInv_init capacity clock) ?_
  · intro s act t hs h hp _
    exact sessionsInv_step hs h hp
  · intro s act t hs h hp
    exact lastWriteShown_step hs h hp
  · intro s act hs
    cases act with
    | openNext capacity => trivial
    | session act now =>
      cases act with
      | shutdown expired =>
        intro hset hle
        simp [Sessions.step, ClosingAct.reads, hle, Closing.step, hset, Shutdown.step, Reporter.step] at hs
      | _ => trivial
  · intro hdone; cases hdone

/-- A session that logs the values at their steps in one batch and shuts down. -/
def loggedSession (values : List (Int × F64)) : List ClosingAct := List.flatten
  [[.work (.readClock 0)],
    (values.flatMap fun v => .report "r" "k" v.1 v.2 :: List.replicate 5 (.call 0)),
    List.replicate (values.length + 1) (.work .go), [.work .timeout, .work (.write 0)],
    List.replicate 4 (.work .go), List.replicate 6 (.shutdown false), [.work .go],
    List.replicate 2 (.shutdown false)]

/-- The second session opens before the clock has passed the stamps of the first. -/
def rewriteRun : List SessionsAct := List.flatten
  [(loggedSession [(1, ⟨5⟩), (0, ⟨1⟩)]).map (.session · 0), [.openNext 2],
    (loggedSession [(0, ⟨2⟩)]).map (.session · 0)]

theorem rewrite_hidden_by_earlier_session : ¬ ∀ capacity clock acts,
    Along Sessions.step LastWriteShown
      { closing := { reporter := { capacity := capacity } }, clock := clock } acts := by
  intro hall
  have hrun : ∃ s, exec Sessions.step { closing := { reporter := { capacity := 2 } }, clock := 0 } rewriteRun =
      some s ∧ s.closing.shutdown = .done (.ok ()) ∧
      (lastReport (s.reported ++ s.closing.reporter.accepted) ("r", "k", 0)).map MetricReport.valueF64 = some ⟨2⟩ ∧
      (effectiveRow (s.points ++ s.closing.reporter.written) ("r", "k", 0)).map MetricPointRow.valueF64 =
        some ⟨1⟩ := ⟨_, rfl, rfl, rfl, rfl⟩
  obtain ⟨s, hs, hd, hl, hv⟩ := hrun
  have hshown := (along_iff Sessions.step).mp (hall 2 0 rewriteRun) _ (List.prefix_refl _) s hs hd
  obtain ⟨r, hr, hr2⟩ := Option.map_eq_some_iff.mp hl
  have := hshown _ r hr
  rw [hv, hr2] at this
  exact absurd this (by decide)

end Pulseon
