import Pulseon.ResumeSound

/-!
# One call for each run

No two calls that create, resume or finish a run overlap on it. Then the stored
status a call has read is the stored status until the call changes it, and only
the call itself puts an active run of the run into a map or opens its admission
again.
-/

namespace Pulseon

def Thread.operates : Thread → Option RunId
  | .creating _ r | .checking _ r _ | .inserting _ r _ | .undoing _ r _ | .undone _ r _ => some r
  | .finalizing _ r | .using _ r _ | .marked _ r _ | .closing _ r _ | .released _ r _ => some r
  | .idle | .logging _ | .tearing _ => none

def Thread.absent : Thread → Option RunId
  | .creating _ r | .checking _ r _ | .inserting _ r _ | .undoing _ r _ => some r
  | _ => none

/-- The run whose active run or status the step is about. -/
def ProtocolAct.operates : ProtocolAct → Option RunId
  | .begin _ r | .share _ r | .register _ r | .check _ r | .insert _ r | .undo _ r => some r
  | .undoWriter _ r | .undoLock _ r | .close _ r | .mark _ r | .markTerminal _ r => some r
  | .releaseLock _ r | .releaseWriter _ r | .reopen _ r => some r
  | .stay | .return | .absent _ _ | .enter _ | .leave _ | .tear _ | .releaseAll _ | .handle _ _ => none

/-- No active run of the run in the client's map admits reports. -/
def Protocol.Shut (p : Protocol) (c : Nat) (r : RunId) : Prop :=
  ∀ a, p.registry.activeRuns c r = some a → (p.registry.active a).admission ≠ .opened

/-- The run has no other call, a call takes an active run of a run that it has
found absent or that is running, and a handle is made for a stored run. -/
structure OnePerRun (p : Protocol) (i : Nat) (l : ProtocolAct) : Prop where
  others : ∀ r, l.operates = some r → ∀ j, j ≠ i → (p.threads j).operates ≠ some r
  acquires : ∀ c r, l = .share c r ∨ l = .register c r → p.threads i = .creating c r ∨ p.status r = some .running
  handles : ∀ c r, l = .handle c r → p.status r ≠ none

structure Thread.Knows (g : Registry) (status : RunId → Option RunStatus) (th : Thread) : Prop where
  absent : ∀ r, th.absent = some r → status r = none
  running : ∀ c r a, th = .using c r a → status r = some .running
  own : ∀ c r a, th.holds = some (c, r, a) → ∀ b, g.activeRuns c r = some b → b = a

structure StatusInv (p : Protocol) : Prop where
  lock : LockInv p
  handled : ∀ run ∈ p.registry.handles, p.status run.runId ≠ none
  threads : ∀ i, (p.threads i).Knows p.registry p.status

theorem Thread.operates_of_absent {th : Thread} {r : RunId} (h : th.absent = some r) : th.operates = some r := by
  cases th <;> first | exact h | cases h

theorem Thread.operates_of_holds {th : Thread} {c a : Nat} {r : RunId} (h : th.holds = some (c, r, a)) :
    th.operates = some r := by
  cases th <;> cases h <;> rfl

theorem Thread.operates_of_ends {th : Thread} {c a : Nat} {r : RunId} (h : th.ends = some (c, r, a)) :
    th.operates = some r := by
  cases th <;> cases h <;> rfl

theorem Thread.operates_of_finalizes {th : Thread} {c : Nat} {r : RunId} (h : th.finalizes = some (c, r)) :
    th.operates = some r := by
  cases th <;> cases h <;> rfl

theorem Thread.knows_free {g : Registry} {status : RunId → Option RunStatus} {th : Thread}
    (ha : th.absent = none) (hh : th.holds = none) : th.Knows g status where
  absent _ e := by rw [ha] at e; cases e
  running _ _ _ e := by rw [e] at hh; cases hh
  own _ _ _ e := by rw [hh] at e; cases e

/-- What the thread knows of its run when it gets the active run of the map. -/
theorem Thread.Knows.acquire {g g' : Registry} {status : RunId → Option RunStatus} {ti th : Thread} {c a : Nat}
    {r : RunId} (h : ti.Knows g status) (hth : ti.Acquires c r a th)
    (hacq : ti = .creating c r ∨ status r = some .running) (ha : g'.activeRuns c r = some a) :
      th.Knows g' status := by
  cases hth with
  | create =>
    refine ⟨fun r e => ?_, nofun, nofun⟩
    cases e; exact h.absent r rfl
  | finalize =>
    refine ⟨nofun, fun c r a e => ?_, fun c r a e b hb => ?_⟩
    · cases e; exact hacq.resolve_left nofun
    · cases e; exact Option.some.inj (hb.symm.trans ha)
  | resume => exact knows_free rfl rfl

theorem statusIn_markRun_self (runs : List Run) (r : RunId) (target : TerminalStatus) (t : Int)
    (h : statusIn runs r = some .running) :
    statusIn (runs.map (markRun r target t)) r = some target.val := by
  unfold statusIn at h ⊢
  induction runs with
  | nil => cases h
  | cons run runs ih =>
    have hid : (markRun r target t run).runId = run.runId := by unfold markRun; split <;> rfl
    rw [List.find?_cons] at h
    rw [List.map_cons, List.find?_cons, hid]
    cases hf : run.runId == r with
    | false =>
      rw [hf] at h
      exact ih h
    | true =>
      rw [hf] at h
      have hrun : run.status = .running := Option.some.inj h
      simp [markRun, hf, hrun]

theorem markRun_ids (runs : List Run) (r : RunId) (target : TerminalStatus) (t : Int) :
    (runs.map (markRun r target t)).map Run.runId = runs.map Run.runId := by
  rw [List.map_map]
  refine List.map_congr_left fun run _ => ?_
  show (markRun r target t run).runId = run.runId
  unfold markRun; split <;> rfl

/-! ## Steps on other runs -/

section
variable {p q : Protocol} {i : Nat} {l : ProtocolAct} (hm : ProtocolMove p i l q)
include hm

theorem threads_move {j : Nat} (hj : j ≠ i) : q.threads j = p.threads j := by
  cases hm <;> first | rfl | exact Function.update_of_ne hj ..

theorem status_move {r : RunId} (hi : ∀ c, l ≠ .insert c r) (hk : ∀ c, l ≠ .mark c r) :
    q.status r = p.status r := by
  cases hm with
  | insert _ hid =>
    rename_i c r' a run _ _
    refine statusIn_append_ne p.runs r run ?_
    rintro rfl
    exact hi c (by rw [hid])
  | mark =>
    rename_i c r' a target t _ _
    refine statusIn_markRun p.runs r' r target t ?_
    rintro rfl
    exact hk c rfl
  | _ => rfl

theorem status_back {r : RunId} (hr : q.status r = none) : p.status r = none := by
  have hids : ∀ runs : List Run, statusIn runs r = none ↔ r ∉ runs.map Run.runId := by
    intro runs
    unfold statusIn
    simp
  cases hm with
  | insert =>
    rw [show p.status r = statusIn p.runs r from rfl, hids]
    have hn := (hids (p.runs ++ [_])).mp hr
    rw [List.map_append, List.mem_append, not_or] at hn
    exact hn.1
  | mark =>
    rename_i c r' a target t _ _
    have hn := (hids (p.runs.map (markRun r' target t))).mp hr
    rw [markRun_ids] at hn
    exact (hids p.runs).mpr hn
  | _ => exact hr

/-- Run ids stay unique as long as a run is inserted when it is absent. -/
theorem runs_nodup (hi : ∀ c r, l = .insert c r → p.status r = none) (hn : (p.runs.map Run.runId).Nodup) :
    (q.runs.map Run.runId).Nodup := by
  cases hm with
  | insert _ hid =>
    rename_i c r a run _ _
    have hnone : statusIn p.runs run.runId = none := by rw [hid]; exact hi c r rfl
    unfold statusIn at hnone
    simp only [Option.map_eq_none_iff, List.find?_eq_none, beq_iff_eq] at hnone
    show ((p.runs ++ [run]).map Run.runId).Nodup
    rw [List.map_append, List.map_singleton]
    refine List.Nodup.append hn (List.nodup_singleton _) ?_
    intro x hx hr
    obtain ⟨y, hy, rfl⟩ := List.mem_map.mp hx
    exact hnone y hy (List.mem_singleton.mp hr)
  | mark =>
    rename_i c r a target t' _ _
    show ((p.runs.map (markRun r target t')).map Run.runId).Nodup
    rw [markRun_ids]; exact hn
  | _ => exact hn

theorem map_move {c a : Nat} {r : RunId} (hr : l ≠ .register c r) (ha : q.registry.activeRuns c r = some a) :
    p.registry.activeRuns c r = some a := by
  cases hm with
  | register =>
    change (p.registry.register _ _).activeRuns c r = some a at ha
    rw [Registry.register_activeRuns] at ha
    split at ha
    · rename_i e; rw [e.1, e.2] at hr; exact absurd rfl hr
    · exact ha
  | undoLock | releaseLock =>
    change (p.registry.releaseLock _).activeRuns c r = some a at ha
    rw [Registry.releaseLock_activeRuns] at ha; exact ha
  | undoWriter | releaseWriter =>
    change (p.registry.releaseRunWriter _ _).activeRuns c r = some a at ha
    rw [Registry.releaseRunWriter_activeRuns] at ha
    split at ha
    · cases ha
    · exact ha
  | releaseAll =>
    change (p.registry.releaseAllRunWriters _).activeRuns c r = some a at ha
    rw [Registry.releaseAll_activeRuns] at ha
    split at ha
    · cases ha
    · exact ha
  | handle =>
    change (p.registry.runHandle _ _).activeRuns c r = some a at ha
    rw [Registry.runHandle_activeRuns] at ha; exact ha
  | _ => exact ha

theorem handles_move {run : NativeRun} (hrun : run ∈ q.registry.handles) :
    run ∈ p.registry.handles ∨ l = .handle run.client run.runId := by
  cases hm with
  | undoLock | releaseLock =>
    change run ∈ (p.registry.releaseLock _).handles at hrun
    rw [Registry.releaseLock_handles] at hrun; exact Or.inl hrun
  | undoWriter | releaseWriter =>
    change run ∈ (p.registry.releaseRunWriter _ _).handles at hrun
    rw [Registry.releaseRunWriter_handles] at hrun; exact Or.inl hrun
  | handle =>
    change run ∈ (p.registry.runHandle _ _).handles at hrun
    rcases (Registry.runHandle_handles _ _ _).mp hrun with h | ⟨a, rfl, -⟩
    · exact Or.inl h
    · exact Or.inr rfl
  | _ => exact Or.inl hrun

theorem handles_kept {run : NativeRun} (hrun : run ∈ p.registry.handles) : run ∈ q.registry.handles := by
  cases hm with
  | undoLock | releaseLock =>
    change run ∈ (p.registry.releaseLock _).handles
    rw [Registry.releaseLock_handles]; exact hrun
  | undoWriter | releaseWriter =>
    change run ∈ (p.registry.releaseRunWriter _ _).handles
    rw [Registry.releaseRunWriter_handles]; exact hrun
  | handle => exact (Registry.runHandle_handles _ _ _).mpr (Or.inl hrun)
  | _ => exact hrun

theorem terminated_move {c : Nat} {r : RunId} (h : (c, r) ∈ q.registry.terminated) :
    (c, r) ∈ p.registry.terminated ∨ ∃ a, p.threads i = .marked c r a := by
  cases hm with
  | undoLock | releaseLock =>
    change _ ∈ (p.registry.releaseLock _).terminated at h
    rw [Registry.releaseLock_terminated] at h; exact Or.inl h
  | undoWriter | releaseWriter =>
    change _ ∈ (p.registry.releaseRunWriter _ _).terminated at h
    rw [Registry.releaseRunWriter_terminated] at h; exact Or.inl h
  | handle =>
    change _ ∈ (p.registry.runHandle _ _).terminated at h
    rw [Registry.runHandle_terminated] at h; exact Or.inl h
  | markTerminal hi =>
    rcases List.mem_cons.mp h with h | h
    · cases h; exact Or.inr ⟨_, hi⟩
    · exact Or.inl h
  | _ => exact Or.inl h

theorem terminated_kept {c : Nat} {r : RunId} (h : (c, r) ∈ p.registry.terminated) :
    (c, r) ∈ q.registry.terminated := by
  cases hm with
  | undoLock | releaseLock =>
    change _ ∈ (p.registry.releaseLock _).terminated
    rw [Registry.releaseLock_terminated]; exact h
  | undoWriter | releaseWriter =>
    change _ ∈ (p.registry.releaseRunWriter _ _).terminated
    rw [Registry.releaseRunWriter_terminated]; exact h
  | handle =>
    change _ ∈ (p.registry.runHandle _ _).terminated
    rw [Registry.runHandle_terminated]; exact h
  | markTerminal => exact List.mem_cons_of_mem _ h
  | _ => exact h

theorem marked_move {j c a : Nat} {r : RunId} (hj : q.threads j = .marked c r a) :
    p.threads j = .marked c r a ∨ l = .mark c r := by
  by_cases hji : j = i
  · subst hji
    have hset : ∀ {g : Registry} {runs : List Run} {torn : Nat → Bool} {th : Thread},
        (Protocol.setThread ⟨g, runs, torn, p.threads⟩ j th).threads j = .marked c r a → th = .marked c r a :=
      fun e => (Function.update_self ..).symm.trans e
    cases hm with
    | stay | close | handle => exact Or.inl hj
    | mark => cases hset hj; exact Or.inr rfl
    | share _ hth | register _ _ hth =>
      have e := hset hj
      generalize p.threads j = ti at hth
      cases hth <;> cases e
    | _ => cases hset hj
  · rw [← threads_move hm hji]; exact Or.inl hj

theorem marked_kept {j c a : Nat} {r : RunId} (hj : p.threads j = .marked c r a) :
    q.threads j = .marked c r a ∨ (c, r) ∈ q.registry.terminated := by
  by_cases hji : j = i
  · subst hji
    cases hm with
    | stay | handle => exact Or.inl hj
    | markTerminal hi =>
      rw [hj] at hi; cases hi
      exact Or.inr (List.mem_cons_self ..)
    | share _ hth | register _ _ hth => rw [hj] at hth; cases hth
    | undo hi => rcases hi with hi | hi <;> (rw [hj] at hi; cases hi)
    | returns hi | begin hi | absent hi | check hi | insert hi | undoWriter hi | undoLock hi | close hi | mark hi
      | releaseLock hi | releaseWriter hi | reopen hi | enter hi | leave hi | tear hi | releaseAll hi =>
      rw [hj] at hi; cases hi
  · rw [threads_move hm hji]; exact Or.inl hj

/-- Admission opens in an active run of a map only where one is made or opened again. -/
theorem Protocol.Shut.move {c : Nat} {r : RunId} (h : LockInv p) (hr : l ≠ .register c r)
    (ho : l ≠ .reopen c r) (hs : p.Shut c r) : q.Shut c r := by
  intro a ha
  have hold := map_move hm hr ha
  have hkey := h.registry.keyed c r a hold
  have hshut := hs a hold
  cases hm with
  | register =>
    change ((p.registry.register _ _).active a).admission ≠ _
    rw [(p.registry.keeps_register _ _).admission c r a hkey]; exact hshut
  | undoLock | releaseLock =>
    change ((p.registry.releaseLock _).active a).admission ≠ _
    rw [Registry.releaseLock_admission]; exact hshut
  | undoWriter | releaseWriter =>
    change ((p.registry.releaseRunWriter _ _).active a).admission ≠ _
    rw [Registry.releaseRunWriter_admission]; exact hshut
  | releaseAll =>
    change ((p.registry.releaseAllRunWriters _).active a).admission ≠ _
    rw [Registry.releaseAll_admission]; exact hshut
  | handle =>
    change ((p.registry.runHandle _ _).active a).admission ≠ _
    rw [(p.registry.keeps_runHandle _ _).admission c r a hkey]; exact hshut
  | enter | leave =>
    change ((p.registry.setGate _ _).active a).admission ≠ _
    rw [Registry.setGate_admission]; exact hshut
  | close =>
    change ((p.registry.setAdmission _ _).active a).admission ≠ _
    rw [Registry.setAdmission_active]
    split
    · exact nofun
    · exact hshut
  | markTerminal =>
    change ((p.registry.setAdmission _ _).active a).admission ≠ _
    rw [Registry.setAdmission_active]
    split
    · exact nofun
    · exact hshut
  | reopen hi =>
    rename_i d s b _
    change ((p.registry.setAdmission b _).active a).admission ≠ _
    rw [Registry.setAdmission_active, if_neg]
    · exact hshut
    · rintro rfl
      obtain ⟨⟨h1, h2⟩, -⟩ := (h.threads i).keyed d s a (by rw [hi]; rfl)
      rw [hkey.1.1] at h1; rw [hkey.1.2] at h2
      rw [h1, h2] at ho; exact ho rfl
  | _ => exact hshut

end

section
variable {p q : Protocol} {i : Nat} {l : ProtocolAct} (h : StatusInv p)
include h

theorem StatusInv.undoesAlone (ho : OnePerRun p i l) (hm : ProtocolMove p i l q) : UndoesAlone p l := by
  refine ⟨?_, ?_⟩
  · rintro c r rfl j hj
    cases hm with
    | begin hi =>
      refine ho.others r rfl j ?_ (Thread.operates_of_finalizes hj)
      rintro rfl
      rw [hi] at hj; cases hj
  · rintro c r x rfl hx
    cases hm with
    | undoWriter hi =>
      rename_i a
      have hnone := (h.threads i).absent r (by rw [hi]; rfl)
      refine ⟨fun run hrun e => ?_, fun j => ?_⟩
      · -- the run has no handles
        have hk := (h.lock.registry.handled run hrun).1.2
        rw [e, (h.lock.registry.keyed c r x hx).1.2] at hk
        exact h.handled run hrun (hk ▸ hnone)
      · have hop : (p.threads j).operates ≠ some r ∨ j = i := by
          by_cases hj : j = i
          · exact Or.inr hj
          · exact Or.inl (ho.others r rfl j hj)
        rcases hop with hop | rfl
        · exact ⟨fun e => hop (Thread.operates_of_holds e), fun e => hop (Thread.operates_of_ends e)⟩
        · rw [hi]; exact ⟨nofun, nofun⟩

omit h in
theorem OnePerRun.status_other (ho : OnePerRun p i l) (hm : ProtocolMove p i l q) {j : Nat} (hj : j ≠ i)
    {r : RunId} (hr : (p.threads j).operates = some r) : q.status r = p.status r := by
  refine status_move hm ?_ ?_
  · rintro c rfl; exact ho.others r rfl j hj hr
  · rintro c rfl; exact ho.others r rfl j hj hr

theorem StatusInv.terminal_kept (hm : ProtocolMove p i l q) {r : RunId} {st : RunStatus}
    (hr : p.status r = some st) (hst : st ≠ .running) : q.status r = some st := by
  rw [← hr]
  refine status_move hm ?_ ?_
  · rintro c rfl
    cases hm with
    | insert hi => rw [(h.threads i).absent r (by rw [hi]; rfl)] at hr; cases hr
  · rintro c rfl
    cases hm with
    | mark hi =>
      rename_i a target t _
      rw [(h.threads i).running c r a hi] at hr; cases hr; exact hst rfl

theorem StatusInv.terminal_back (hm : ProtocolMove p i l q) {r : RunId} {st : RunStatus}
    (hk : ∀ c, l ≠ .mark c r) (hr : q.status r = some st) (hst : st ≠ .running) : p.status r = some st := by
  rw [← hr]
  refine (status_move hm ?_ hk).symm
  rintro c rfl
  cases hm with
  | insert hi hid hrun =>
    rename_i a run
    have hnone := (h.threads i).absent r (by rw [hi]; rfl)
    have happend : statusIn (p.runs ++ [run]) r = some .running := by
      unfold Protocol.status statusIn at hnone
      unfold statusIn
      rw [List.find?_append, Option.map_eq_none_iff.mp hnone]
      simp [hid, hrun]
    rw [show Protocol.status _ r = statusIn (p.runs ++ [run]) r from rfl, happend] at hr
    cases hr; exact absurd rfl hst

theorem StatusInv.marks {c : Nat} {r : RunId} (hm : ProtocolMove p i (.mark c r) q) :
    ∃ a, p.threads i = .using c r a ∧ q.threads i = .marked c r a ∧ ∃ st, q.status r = some st ∧ st ≠ .running := by
  cases hm with
  | mark hi =>
    rename_i a target t _
    exact ⟨a, hi, Function.update_self .., target.val,
      statusIn_markRun_self p.runs r target t ((h.threads i).running c r a hi), target.property⟩

/-- No active run of a terminal run is made, opened again or marked terminal. -/
theorem StatusInv.terminal_quiet (ho : OnePerRun p i l) (hm : ProtocolMove p i l q) {r : RunId} {st : RunStatus}
    (hr : p.status r = some st) (hst : st ≠ .running) (c : Nat) :
    l ≠ .register c r ∧ l ≠ .reopen c r ∧ l ≠ .mark c r := by
  have husing : ∀ a, p.threads i ≠ .using c r a := by
    intro a hi
    rw [(h.threads i).running c r a hi] at hr; cases hr; exact hst rfl
  refine ⟨?_, ?_, ?_⟩
  · rintro rfl
    rcases ho.acquires c r (Or.inr rfl) with hi | hrun
    · rw [(h.threads i).absent r (by rw [hi]; rfl)] at hr; cases hr
    · rw [hrun] at hr; cases hr; exact hst rfl
  · rintro rfl
    cases hm with
    | reopen hi => exact husing _ hi
  · rintro rfl
    cases hm with
    | mark hi => exact husing _ hi

theorem StatusInv.move_self (ho : OnePerRun p i l) (hm : ProtocolMove p i l q) :
    (q.threads i).Knows q.registry q.status := by
  have hti := h.threads i
  have hset : ∀ {g : Registry} {runs : List Run} {torn : Nat → Bool} {th : Thread},
      th.Knows g (statusIn runs) →
        ((Protocol.setThread ⟨g, runs, torn, p.threads⟩ i th).threads i).Knows g (statusIn runs) := by
    intro g runs torn th hk
    rwa [show (Protocol.setThread ⟨g, runs, torn, p.threads⟩ i th).threads i = th from Function.update_self ..]
  cases hm with
  | stay | close => exact ⟨hti.absent, hti.running, hti.own⟩
  | handle =>
    refine ⟨hti.absent, hti.running, fun c r a e b hb => ?_⟩
    change (p.registry.runHandle _ _).activeRuns c r = some b at hb
    rw [Registry.runHandle_activeRuns] at hb
    exact hti.own c r a e b hb
  | absent _ hnone =>
    refine hset ⟨fun r e => ?_, nofun, nofun⟩
    cases e; exact hnone
  | share ha hth => exact hset (hti.acquire hth (ho.acquires _ _ (Or.inl rfl)) ha)
  | register _ _ hth =>
    rename_i c r th _ _
    have hnew : (p.registry.register c r).activeRuns c r = some p.registry.fresh := by
      rw [Registry.register_activeRuns, if_pos ⟨rfl, rfl⟩]
    exact hset (hti.acquire hth (ho.acquires c r (Or.inr rfl)) hnew)
  | check hi | undo hi =>
    refine hset ⟨fun r e => ?_, nofun, nofun⟩
    cases e
    first
    | exact hti.absent _ (by rw [hi]; rfl)
    | (rcases hi with hi | hi <;> exact hti.absent _ (by rw [hi]; rfl))
  | mark hi =>
    refine hset ⟨nofun, nofun, fun c r a e => ?_⟩
    cases e; exact hti.own _ _ _ (by rw [hi]; rfl)
  | _ => exact hset (Thread.knows_free rfl rfl)

theorem StatusInv.move (ho : OnePerRun p i l) (hm : ProtocolMove p i l q) : StatusInv q := by
  refine ⟨h.lock.move (h.undoesAlone ho hm) hm, fun run hrun hnone => ?_, fun j => ?_⟩
  · have hold := status_back hm hnone
    rcases handles_move hm hrun with hr | rfl
    · exact h.handled run hr hold
    · exact ho.handles _ _ rfl hold
  · by_cases hji : j = i
    · subst hji; exact h.move_self ho hm
    · rw [threads_move hm hji]
      refine ⟨fun r e => ?_, fun c r a e => ?_, fun c r a e b hb => ?_⟩
      · rw [ho.status_other hm hji (Thread.operates_of_absent e)]
        exact (h.threads j).absent r e
      · rw [ho.status_other hm hji (by rw [e]; rfl)]
        exact (h.threads j).running c r a e
      · refine (h.threads j).own c r a e b (map_move hm ?_ hb)
        rintro rfl
        exact ho.others r rfl j hji (Thread.operates_of_holds e)

end

theorem statusInv_init (projects : List Project) (runs : List Run) (capacity : Nat → Nat) :
    StatusInv (World.init projects runs capacity).protocol where
  lock := lockInv_init projects runs capacity
  handled := nofun
  threads _ := Thread.knows_free rfl rfl

end Pulseon
