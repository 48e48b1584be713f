import Pulseon.SequenceSound
import Pulseon.AggregatesSound

/-!
# Histories of clients

Clients are used one after another, no two calls that create, resume or finish
one run overlap, a handle is made of a stored run and a failed append leaves the
table alone. What a call has read of its run then holds until it is used, and
the table has the rows of every reporter in their order.
-/

namespace Pulseon

def WorldAct.operates : WorldAct → Option RunId
  | .start _ request => request.call.operates
  | _ => none

/-- No two calls that create, resume or finish a run overlap. -/
def OneCallPerRun (s : World) (act : WorldAct) : Prop :=
  ∀ r, act.operates = some r → ∀ j, (s.calls j).operates ≠ some r

/-- A handle is made of a stored run. -/
def HandlesStored (s : World) : WorldAct → Prop
  | .runHandle _ r => statusIn s.runs r ≠ none
  | _ => True

def WorldAct.LeavesTable : WorldAct → Prop
  | .work _ act => Pulseon.LeavesTable (.work act)
  | _ => True

structure Sequential (s : World) (act : WorldAct) : Prop where
  clients : OneAfterAnother s act
  runs : OneCallPerRun s act
  handles : HandlesStored s act
  table : act.LeavesTable

structure ReporterInv (q : Reporter) : Prop where
  ordered : Ordered q
  counted : Counted q
  stamped : Stamped q
  tagged : Tagged q

structure HistoryInv (s : World) : Prop where
  status : StatusInv s.protocol
  sequence : SequenceInv s
  reporters : ∀ c, ReporterInv (s.clients c).reporter
  calls : ∀ i j r, (s.calls i).operates = some r → (s.calls j).operates = some r → i = j
  -- a call about to run `acquire_run_writer` has read that the run is running
  reads : ∀ i c r, (s.calls i).reacquires = some (c, r) → statusIn s.runs r = some .running
  stored : (s.runs.map Run.runId).Nodup
  written : ∀ c, ((s.clients c).reporter.written).Sublist s.points
  encoded : Encoded s.points

/-! ## Calls and their runs -/

theorem operates_of_thread {k : Call} {r : RunId} (h : k.thread.operates = some r) : k.operates = some r := by
  cases k.threaded with
  | idle e | shutdown e => rw [e] at h; cases h
  | create _ _ _ _ pc => cases pc <;> first | exact h | cases h
  | finalize _ _ _ pc => cases pc <;> first | exact h | cases h
  | log => cases h

theorem operates_of_reacquires {k : Call} {c : Nat} {r : RunId} (h : k.reacquires = some (c, r)) :
    k.operates = some r := by
  cases k with
  | resumeRun _ _ pc => cases pc <;> cases h; rfl
  | finalizeRun _ _ _ pc => cases pc <;> cases h; rfl
  | _ => cases h

section
variable {s t : World} {i : Nat} {act : WorldAct} {l : ProtocolAct} {q : Protocol} {env : Env}

theorem operates_of_move (hm : ProtocolMove s.protocol i l q) (ho : l.Of s i act) {r : RunId}
    (hl : l.operates = some r) : (s.calls i).operates = some r ∨ act.operates = some r := by
  have hthread : ∀ {th : Thread}, s.protocol.threads i = th → th.operates = some r →
      (s.calls i).operates = some r := by
    intro th hi hth
    exact operates_of_thread (k := s.calls i) (by rw [show (s.calls i).thread = th from hi]; exact hth)
  cases ho with
  | start | handle | work => cases hl
  | @begins request c r' hreq =>
    right
    cases request <;> cases hreq <;> cases hl <;> rfl
  | go hby =>
    left
    cases hm with
    | stay | returns | absent | enter | leave | tear | releaseAll | handle => cases hl
    | begin => exact absurd rfl (hby.begins _ _)
    | share => cases hl; exact (calls_of_acquires (hby.shares _ _ rfl)).2
    | register => cases hl; exact (calls_of_acquires (hby.acquires _ _ rfl).1).2
    | check hi | insert hi | undoWriter hi | undoLock hi | close hi | mark hi | markTerminal hi | releaseLock hi
      | releaseWriter hi | reopen hi => exact hthread hi hl
    | undo hi => rcases hi with hi | hi <;> exact hthread hi hl

/-- The calls after a step on a run: another call on it is none. -/
theorem HistoryInv.alone (h : HistoryInv s) (hc : OneCallPerRun s act) (hm : ProtocolMove s.protocol i l q)
    (ho : l.Of s i act) {r : RunId} (hl : l.operates = some r) {j : Nat} (hj : j ≠ i) :
    (s.calls j).operates ≠ some r := by
  intro e
  rcases operates_of_move hm ho hl with hi | hact
  · exact hj (h.calls j i r e hi)
  · exact hc r hact j e

theorem HistoryInv.onePerRun (h : HistoryInv s) (hs : Sequential s act) (hm : ProtocolMove s.protocol i l q)
    (ho : l.Of s i act) : OnePerRun s.protocol i l := by
  refine ⟨fun r hl j hj e => h.alone hs.runs hm ho hl hj (operates_of_thread e), ?_, ?_⟩
  · intro c r hl
    have hacq : (s.calls i).acquires = some (c, r) := by
      cases ho with
      | go hby => exact hl.elim (hby.shares c r) fun e => (hby.acquires c r e).1
      | start | begins | handle | work => rcases hl with e | e <;> cases e
    exact (acquires_cases hacq).imp id (h.reads i c r)
  · rintro c r rfl
    cases ho with
    | handle => exact hs.handles
    | go hby => exact absurd rfl (hby.handles c r)

theorem reads_start (request : Request) : request.call.reacquires = none := by cases request <;> rfl

theorem reads_go (hs : s.step (.go i env) = some t) {c : Nat} {r : RunId}
    (ht : (t.calls i).reacquires = some (c, r)) : statusIn t.runs r = some .running := by
  have hread : ∀ {run : Run}, s.getRun r env.fails = .ok run → run.status = .running →
      statusIn s.runs r = some .running := by
    intro run hrun hst
    unfold statusIn
    rw [getRun_ok hrun]
    exact congrArg some hst
  have hother : ∀ {s' : World} {k : Call}, (s'.setCall i k).calls i = k := Function.update_self ..
  have hret : ∀ {s' : World} {result : Except EngineError (Option Run)},
      ((s'.returns i result).calls i).reacquires ≠ some (c, r) := by
    intro s' result e
    rw [show (s'.returns i result).calls i = .returned result from hother] at e; cases e
  obtain ⟨k', hcalls, hcont⟩ := calls_go hs
  have hk' : t.calls i = k' := by rw [hcalls, Function.update_self]
  have hop := hcont.operates r (hk' ▸ operates_of_reacquires ht)
  simp only [World.step] at hs
  generalize s.calls i = k at hs hop
  cases k with
  | createRun c' projectId name r' pc =>
    exfalso
    cases pc <;> simp only [World.callStep, World.createRunStep] at hs <;> repeat' split at hs
    all_goals first
      | (cases hs; exact hret ht)
      | (cases hs; rw [hother] at ht; cases ht)
      | cases hs
  | resumeRun c' r' pc =>
    cases hop
    cases pc with
    | getRun =>
      simp only [World.callStep, World.resumeRunStep] at hs
      split at hs
      · cases hs
      · split at hs
        · rename_i hrun
          split at hs
          · rename_i hst; cases hs; exact hread hrun hst
          · cases hs; exact absurd ht hret
        · cases hs; exact absurd ht hret
    | _ =>
      exfalso
      simp only [World.callStep, World.resumeRunStep] at hs
      split at hs
      · cases hs; exact hret ht
      · cases hs; first | exact hret ht | (rw [hother] at ht; cases ht)
  | finalizeRun c' r' target pc =>
    cases hop
    cases pc with
    | getRun =>
      simp only [World.callStep, World.finalizeRunStep] at hs
      split at hs
      · cases hs
      · split at hs
        · rename_i hrun
          split at hs
          · rename_i hst; cases hs; exact hread hrun hst
          · cases hs; exact absurd ht hret
        · cases hs; exact absurd ht hret
    | drain a d =>
      exfalso
      simp only [World.callStep, World.finalizeRunStep] at hs
      split at hs
      · cases hs; rw [hother] at ht; cases ht
      · cases hs; rw [hother] at ht; cases ht
      · obtain ⟨d', -, rfl⟩ := Option.map_eq_some_iff.mp hs
        rw [hother] at ht; cases ht
    | _ =>
      exfalso
      simp only [World.callStep, World.finalizeRunStep] at hs
      repeat' split at hs
      all_goals first
        | (cases hs; exact hret ht)
        | (cases hs; rw [hother] at ht; cases ht)
        | cases hs
  | _ => cases hop

/-- Rows come into the table from the workers, each from a report in hand. -/
theorem points_step (hs : s.step act = some t) : ∃ rows, t.points = s.points ++ rows ∧
    (∀ c, ∃ more, (t.clients c).reporter.written = (s.clients c).reporter.written ++ more ∧ more.Sublist rows) ∧
    ∀ row ∈ rows, ∃ c, ∃ report ∈ (s.clients c).reporter.worker.inHand, RowOf row report := by
  have hquiet : t.points = s.points → (∀ c a, ReporterCause s c act a → ∀ w, a ≠ .work w) →
      ∃ rows, t.points = s.points ++ rows ∧
        (∀ c, ∃ more, (t.clients c).reporter.written = (s.clients c).reporter.written ++ more ∧
          more.Sublist rows) ∧
        ∀ row ∈ rows, ∃ c, ∃ report ∈ (s.clients c).reporter.worker.inHand, RowOf row report := by
    intro hp hn
    refine ⟨[], by rw [hp, List.append_nil], fun c => ⟨[], ?_, List.Sublist.refl _⟩, by simp⟩
    rw [List.append_nil]
    rcases reporters_step hs c with e | ⟨a, hcause, hst⟩
    · rw [e]
    · exact (reporter_step_quiet hst (hn c a hcause)).2.1
  cases act with
  | start i request =>
    refine hquiet ?_ fun c a hcause => by cases hcause
    simp only [World.step] at hs
    split at hs
    · cases hs
    · cases hs; rfl
  | go i env =>
    refine hquiet ?_ fun c a hcause w => ?_
    · simp only [World.step] at hs
      generalize hk : s.calls i = k at hs
      cases k with
      | createProject => exact (createProject_keeps hs).points
      | createRun => exact (createRun_keeps hs).points
      | resumeRun => exact (resumeRun_keeps hs).points
      | finalizeRun => exact (finalizeRun_keeps hs).points
      | flushRunData => exact (flushRunData_keeps hs).points
      | logMetricAtStep run key n v pc =>
        rcases logMetricAtStep_cases hs with ⟨-, hk', -⟩ | ⟨-, act, hm, -⟩
        · exact hk'.points
        · exact hm.points
      | shutdown c pc => exact (shutdown_moves hs).points
      | idle => cases hs
      | returned => cases hs
    · cases hcause with
      | log _ _ hact => rintro rfl; rcases hact with ⟨-, e⟩ | ⟨-, e⟩ <;> cases e
      | shutdown _ hact => rintro rfl; rcases hact with e | e | e <;> cases e
  | runHandle c r => cases hs; exact hquiet rfl fun c a hcause => by cases hcause
  | work c act =>
    simp only [World.step, World.workStep] at hs
    split at hs
    · cases hs
    · obtain ⟨q, hq, rfl⟩ := Option.map_eq_some_iff.mp hs
      obtain ⟨rows, hrows, hof⟩ := rows_of_step hq
      refine ⟨rows, ?_, fun d => ?_, fun row hrow => ⟨c, hof row hrow⟩⟩
      · show s.points ++ q.written.drop _ = _
        rw [hrows, List.drop_left]
      · by_cases hd : d = c
        · subst hd
          refine ⟨rows, ?_, List.Sublist.refl _⟩
          change ((s.setClient d { s.clients d with reporter := q }).clients d).reporter.written = _
          rw [setClient_self]; exact hrows
        · refine ⟨[], ?_, List.nil_sublist _⟩
          change ((s.setClient c { s.clients c with reporter := q }).clients d).reporter.written = _
          rw [setClient_others _ _ _ hd, List.append_nil]

theorem ReporterInv.step {q q' : Reporter} {act : ReporterAct} (h : ReporterInv q) (hl : LeavesTable act)
    (hs : q.step act = some q') : ReporterInv q' :=
  ⟨h.ordered.step hs, h.counted.step h.ordered hs, h.stamped.step hl hs, h.tagged.step hs⟩

theorem StatusInv.inserts {p : Protocol} (h : StatusInv p) (hm : ProtocolMove p i l q) :
    ∀ c r, l = .insert c r → p.status r = none := by
  rintro c r rfl
  cases hm with
  | insert hi => exact (h.threads i).absent r (by rw [hi]; rfl)

theorem HistoryInv.reads_step (h : HistoryInv s) (hc : OneCallPerRun s act) (hs : s.step act = some t) :
    ∀ j c r, (t.calls j).reacquires = some (c, r) → statusIn t.runs r = some .running := by
  obtain ⟨i, l, hm, ho⟩ := world_refines hs
  intro j c r hj
  -- a call that does not move has its run to itself
  have hstay : (s.calls j).reacquires = some (c, r) → j ≠ i ∨ l.operates = none →
      statusIn t.runs r = some .running := by
    intro e hji
    have hop := operates_of_reacquires e
    rw [← h.reads j c r e]
    refine status_move hm ?_ ?_
    · rintro d rfl
      rcases hji with hji | hl
      · exact h.alone hc hm ho rfl hji hop
      · cases hl
    · rintro d rfl
      rcases hji with hji | hl
      · exact h.alone hc hm ho rfl hji hop
      · cases hl
  cases act with
  | start i' request =>
    have hi : i' = i := by cases ho <;> rfl
    subst hi
    simp only [World.step] at hs
    split at hs
    · cases hs
    · cases hs
      by_cases hji : j = i'
      · rw [hji, show (s.setCall i' request.call).calls i' = request.call from Function.update_self ..,
          reads_start] at hj
        cases hj
      · rw [show (s.setCall i' request.call).calls j = s.calls j from Function.update_of_ne hji ..] at hj
        exact hstay hj (Or.inl hji)
  | go i' env =>
    have hi : i' = i := by cases ho; rfl
    subst hi
    by_cases hji : j = i'
    · rw [hji] at hj; exact reads_go hs hj
    · obtain ⟨k', hcalls, -⟩ := calls_go hs
      rw [hcalls, Function.update_of_ne hji] at hj
      exact hstay hj (Or.inl hji)
  | runHandle d r' =>
    have hl : l.operates = none := by
      cases ho; rfl
    cases hs
    exact hstay hj (Or.inr hl)
  | work d act =>
    have hl : l.operates = none := by
      cases ho; rfl
    rw [work_calls hs] at hj
    exact hstay hj (Or.inr hl)

theorem HistoryInv.step (h : HistoryInv s) (hc : Sequential s act) (hs : s.step act = some t) : HistoryInv t := by
  obtain ⟨i, l, hm, ho⟩ := world_refines hs
  obtain ⟨rows, hp, hwritten, hrows⟩ := points_step hs
  refine ⟨h.status.move (h.onePerRun hc hm ho) hm, h.sequence.step h.status.lock hc.clients hs, fun c => ?_, ?_,
    h.reads_step hc.runs hs, runs_nodup hm (h.status.inserts hm) h.stored, fun c => ?_, ?_⟩
  · rcases reporters_step hs c with e | ⟨a, hcause, hst⟩
    · rw [e]; exact h.reporters c
    · refine (h.reporters c).step ?_ hst
      cases hcause with
      | log _ _ hact => rcases hact with ⟨-, rfl⟩ | ⟨-, rfl⟩ <;> trivial
      | shutdown _ hact => rcases hact with rfl | rfl | rfl <;> trivial
      | work => exact hc.table
  · refine calls_unique (f := Call.operates) (fun _ _ hk => hk.operates) ?_ hs h.calls
    rintro i request rfl r e
    exact hc.runs r e
  · obtain ⟨more, hw, hsub⟩ := hwritten c
    rw [hw, hp]
    exact (h.written c).append hsub
  · rw [hp]
    refine encoded_append.mpr ⟨h.encoded, fun row hrow => ?_⟩
    obtain ⟨c, report, -, hof⟩ := hrows row hrow
    rw [hof]; rfl

end

theorem historyInv_init (projects : List Project) (capacity : Nat → Nat) :
    HistoryInv (World.init projects [] capacity) where
  status := statusInv_init projects [] capacity
  sequence := sequenceInv_init projects [] capacity
  reporters _ := ⟨ordered_init _, counted_init _, stamped_init _, tagged_init _⟩
  calls := nofun
  reads := nofun
  stored := List.nodup_nil
  written _ := List.Sublist.refl _
  encoded := nofun

end Pulseon
