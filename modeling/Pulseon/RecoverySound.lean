import Pulseon.InertSound

/-!
# Failed finalizations

A finalizer closes the admission of its active run and, on the exits that it
guards, opens it again. The other calls leave the active run alone unless they
take it from its client. The conversion of the clock and `mark_run_terminal` are
not guarded: when one of them fails, the call returns with the admission closed.
-/

namespace Pulseon

/-! ## The keys of active runs -/

section
variable {p q : Protocol} {i : Nat} {l : ProtocolAct}

theorem keyed_move (hm : ProtocolMove p i l q) {c a : Nat} {r : RunId} (h : p.registry.Keyed c r a) :
    q.registry.Keyed c r a := by
  cases hm with
  | register => exact (p.registry.keeps_register _ _).keyed c r a h
  | undoWriter | releaseWriter => exact (p.registry.keeps_releaseRunWriter _ _).keyed c r a h
  | undoLock | releaseLock => exact (p.registry.keeps_releaseLock _).keyed c r a h
  | releaseAll => exact (p.registry.keeps_releaseAll _).keyed c r a h
  | handle => exact (p.registry.keeps_runHandle _ _).keyed c r a h
  | close | reopen =>
    simp only [Protocol.setThread, Protocol.setRegistry, Registry.Keyed, Registry.setAdmission_client,
      Registry.setAdmission_runId]
    exact h
  | markTerminal =>
    simp only [Protocol.setThread, Protocol.setRegistry, Registry.Keyed, Registry.markTerminal,
      Registry.setAdmission_client, Registry.setAdmission_runId]
    exact h
  | enter | leave =>
    simp only [Protocol.setThread, Protocol.setRegistry, Registry.Keyed, Registry.setGate_client,
      Registry.setGate_runId]
    exact h
  | _ => exact h

theorem activeRuns_back (hm : ProtocolMove p i l q) {c a : Nat} {r : RunId}
    (h : q.registry.activeRuns c r = some a) :
    p.registry.activeRuns c r = some a ∨ a = p.registry.fresh := by
  cases hm with
  | register =>
    change (p.registry.register _ _).activeRuns c r = some a at h
    rw [Registry.register_activeRuns] at h
    split at h
    · exact Or.inr (Option.some.inj h).symm
    · exact Or.inl h
  | undoWriter | releaseWriter =>
    change (p.registry.releaseRunWriter _ _).activeRuns c r = some a at h
    rw [Registry.releaseRunWriter_activeRuns] at h
    split at h
    · cases h
    · exact Or.inl h
  | releaseAll =>
    change (p.registry.releaseAllRunWriters _).activeRuns c r = some a at h
    rw [Registry.releaseAll_activeRuns] at h
    split at h
    · cases h
    · exact Or.inl h
  | undoLock | releaseLock =>
    change (p.registry.releaseLock _).activeRuns c r = some a at h
    rw [Registry.releaseLock_activeRuns] at h
    exact Or.inl h
  | handle =>
    change (p.registry.runHandle _ _).activeRuns c r = some a at h
    rw [Registry.runHandle_activeRuns] at h
    exact Or.inl h
  | _ => exact Or.inl h

/-- The client has had the active run and has it no more. -/
structure Registry.Dropped (g : Registry) (c : Nat) (r : RunId) (a : Nat) : Prop where
  keyed : g.Keyed c r a
  unmapped : g.activeRuns c r ≠ some a

theorem dropped_move (hm : ProtocolMove p i l q) {c a : Nat} {r : RunId} (h : p.registry.Dropped c r a) :
    q.registry.Dropped c r a where
  keyed := keyed_move hm h.keyed
  unmapped hq := by
    rcases activeRuns_back hm hq with hp | hp
    · exact h.unmapped hp
    · exact Nat.ne_of_lt h.keyed.2 hp

/-- The active run in the hand of a call was made for the call's client and run, and
is not in the map once the call has run `release_run_writer` to undo its acquisition. -/
structure CellInv (p : Protocol) : Prop where
  gate : GateInv p
  keyed : ∀ i c r a, (p.threads i).cell = some (c, r, a) → p.registry.Keyed c r a
  undone : ∀ i c r a, p.threads i = .undone c r a → p.registry.Dropped c r a

theorem Thread.Acquires.cell_eq {c a : Nat} {r : RunId} {th th' : Thread} (h : th.Acquires c r a th')
    {x : Nat × RunId × Nat} (hx : th'.cell = some x) : x = (c, r, a) := by
  cases h <;> cases hx <;> rfl

theorem CellInv.cell_move (h : CellInv p) (hm : ProtocolMove p i l q) {j c a : Nat} {r : RunId}
    (hj : (q.threads j).cell = some (c, r, a)) : q.registry.Keyed c r a := by
  by_cases hji : j = i
  · subst hji
    have hself : ∀ {p' : Protocol} {th : Thread}, (p'.setThread j th).threads j = th := Function.update_self ..
    have hold : ∀ {th : Thread}, p.threads j = th → th.cell = some (c, r, a) → q.registry.Keyed c r a :=
      fun e hc => keyed_move hm (h.keyed j c r a (e ▸ hc))
    have hheld := (h.gate.move hm).held
    cases hm with
    | share ha hth =>
      rw [hself] at hj
      cases hth.cell_eq hj
      exact h.gate.held.keyed _ _ _ ha
    | register ha _ hth =>
      rw [hself] at hj
      cases hth.cell_eq hj
      refine hheld.keyed _ _ _ ?_
      show (p.registry.register _ _).activeRuns _ _ = _
      rw [Registry.register_activeRuns, if_pos ⟨rfl, rfl⟩]
    | undo hi =>
      rw [hself] at hj
      rcases hi with hi | hi <;> exact hold hi hj
    | check hi | undoWriter hi | mark hi _ | markTerminal hi _ | releaseLock hi =>
      rw [hself] at hj
      exact hold hi hj
    | stay | close | handle => exact hold rfl hj
    | _ => rw [hself] at hj; cases hj
  · rw [threads_move hm hji] at hj
    exact keyed_move hm (h.keyed j c r a hj)

theorem CellInv.undone_move (h : CellInv p) (hm : ProtocolMove p i l q) {j c a : Nat} {r : RunId}
    (hj : q.threads j = .undone c r a) : q.registry.Dropped c r a := by
  have hkeyed : q.registry.Keyed c r a := h.cell_move hm (by rw [hj]; rfl)
  have hold : p.threads j = .undone c r a → q.registry.Dropped c r a :=
    fun e => dropped_move hm (h.undone j c r a e)
  by_cases hji : j = i
  · subst hji
    have hself : ∀ {p' : Protocol} {th : Thread}, (p'.setThread j th).threads j = th := Function.update_self ..
    cases hm with
    | undoWriter =>
      rw [hself] at hj
      cases hj
      refine ⟨hkeyed, ?_⟩
      show (p.registry.releaseRunWriter c r).activeRuns c r ≠ some a
      rw [Registry.releaseRunWriter_activeRuns, if_pos ⟨rfl, rfl⟩]
      exact nofun
    | share _ hth | register _ _ hth =>
      rw [hself] at hj
      rw [hj] at hth
      generalize p.threads j = th at hth
      cases hth
    | stay | close | handle => exact hold hj
    | _ => rw [hself] at hj; cases hj
  · rw [threads_move hm hji] at hj
    exact hold hj

theorem CellInv.move (h : CellInv p) (hm : ProtocolMove p i l q) : CellInv q where
  gate := h.gate.move hm
  keyed _ _ _ _ hj := h.cell_move hm hj
  undone _ _ _ _ hj := h.undone_move hm hj

theorem cellInv_step {s t : World} {act : WorldAct} (h : CellInv s.protocol) (hs : s.step act = some t) :
    CellInv t.protocol := by
  obtain ⟨i, l, hm, -⟩ := world_refines hs
  exact h.move hm

theorem cellInv_init (projects : List Project) (runs : List Run) (capacity : Nat → Nat) :
    CellInv (World.init projects runs capacity).protocol :=
  ⟨gateInv_init projects runs capacity, (fun _ _ _ _ e => by cases e), (fun _ _ _ _ e => by cases e)⟩

end

section
variable {p q : Protocol} {i c : Nat} {r : RunId}

theorem thread_of_undoWriter (hm : ProtocolMove p i (.undoWriter c r) q) : ∃ a, p.threads i = .undoing c r a := by
  cases hm with
  | undoWriter hi => exact ⟨_, hi⟩

theorem thread_of_releaseAll (hm : ProtocolMove p i (.releaseAll c) q) : p.threads i = .tearing c := by
  cases hm with
  | releaseAll hi => exact hi

end

/-! ## The active run of a client -/

/-- The client has the active run in its map, with its guard. -/
structure Registry.Has (g : Registry) (c : Nat) (r : RunId) (a : Nat) (x : RunAdmission) : Prop where
  map : g.activeRuns c r = some a
  guard : (g.active a).writerGuard = true
  admission : (g.active a).admission = x

namespace Registry
variable {g : Registry} {c a : Nat} {r : RunId} {x : RunAdmission} (h : g.Has c r a x)
include h

theorem Has.of_active {g' : Registry} (hmap : g'.activeRuns c r = g.activeRuns c r)
    (ha : g'.active a = g.active a) :
    g'.Has c r a x :=
  ⟨hmap.trans h.map, by rw [ha]; exact h.guard, by rw [ha]; exact h.admission⟩

theorem Has.readmitted (y : RunAdmission) : (g.setAdmission a y).Has c r a y where
  map := h.map
  guard := by rw [setAdmission_writerGuard]; exact h.guard
  admission := by rw [setAdmission_active, if_pos rfl]

theorem Has.setAdmission {b : Nat} (hb : a ≠ b) (y : RunAdmission) : (g.setAdmission b y).Has c r a x :=
  h.of_active rfl (by rw [setAdmission_active, if_neg hb])

theorem Has.setGate (b : Nat) (y : Option Nat) : (g.setGate b y).Has c r a x where
  map := h.map
  guard := by rw [setGate_writerGuard]; exact h.guard
  admission := by rw [setGate_admission]; exact h.admission

theorem Has.register (hk : a < g.fresh) {d : Nat} {q : RunId} (hd : g.activeRuns d q = none) :
    (g.register d q).Has c r a x := by
  refine h.of_active ?_ (by rw [register_active, if_neg (by omega)])
  rw [register_activeRuns, if_neg]
  rintro ⟨rfl, rfl⟩
  rw [h.map] at hd
  cases hd

theorem Has.releaseLock {b : Nat} (hb : a ≠ b) : (g.releaseLock b).Has c r a x :=
  h.of_active (by rw [releaseLock_activeRuns]) (by rw [releaseLock_active, if_neg hb])

theorem Has.releaseRunWriter (hg : g.Held) {d : Nat} {q : RunId} (hd : ¬ (c = d ∧ r = q)) :
    (g.releaseRunWriter d q).Has c r a x := by
  refine h.of_active (by rw [releaseRunWriter_activeRuns, if_neg hd]) ?_
  rw [releaseRunWriter_active, if_neg]
  intro hb
  exact hd (hg.unique hb h.map)

theorem Has.releaseAll (hg : g.Held) {d : Nat} (hd : c ≠ d) : (g.releaseAllRunWriters d).Has c r a x := by
  refine h.of_active (by rw [releaseAll_activeRuns, if_neg hd]) ?_
  rw [releaseAll_active, if_neg]
  intro hreg
  simp only [registered, Bool.and_eq_true, beq_iff_eq] at hreg
  exact hd ((hg.keyed c r a h.map).1.1.symm.trans hreg.1)

theorem Has.runHandle (hk : a < g.fresh) (d : Nat) (q : RunId) : (g.runHandle d q).Has c r a x := by
  refine h.of_active (by rw [runHandle_activeRuns]) ?_
  rw [runHandle_active, if_neg]
  omega

end Registry

/-- The run that a step up to the release of its writer finishes. -/
def ProtocolAct.finishes : ProtocolAct → Option RunId
  | .close _ r | .mark _ r | .markTerminal _ r | .releaseLock _ r | .releaseWriter _ r | .reopen _ r => some r
  | _ => none

/-- The step does not finish the run and does not take it from the client. -/
structure ProtocolAct.Spares (l : ProtocolAct) (c : Nat) (r : RunId) : Prop where
  finishes : l.finishes ≠ some r
  undoWriter : l ≠ .undoWriter c r
  releaseAll : l ≠ .releaseAll c

theorem find_markRun {runs : List Run} {r q : RunId} (hq : q ≠ r) (target : TerminalStatus) (t : Int) {run : Run}
    (h : runs.find? (fun x => x.runId == q) = some run) :
    (runs.map (markRun r target t)).find? (fun x => x.runId == q) = some run := by
  induction runs with
  | nil => cases h
  | cons x runs ih =>
    have hid : (markRun r target t x).runId = x.runId := by unfold markRun; split <;> rfl
    rw [List.find?_cons] at h
    rw [List.map_cons, List.find?_cons, hid]
    cases hx : x.runId == q with
    | false =>
      rw [hx] at h
      exact ih h
    | true =>
      rw [hx] at h
      have hne : x.runId ≠ r := by rw [eq_of_beq hx]; exact hq
      simpa [markRun, hne] using h

theorem statusIn_markRun_terminal {runs : List Run} {r q : RunId} {status : RunStatus} (hn : status ≠ .running)
    (target : TerminalStatus) (t : Int) (h : statusIn runs q = some status) :
    statusIn (runs.map (markRun r target t)) q = some status := by
  by_cases hq : q = r
  · subst hq
    obtain ⟨run, hrun, rfl⟩ := Option.map_eq_some_iff.mp h
    clear h
    unfold statusIn
    induction runs with
    | nil => cases hrun
    | cons x runs ih =>
      have hid : (markRun q target t x).runId = x.runId := by unfold markRun; split <;> rfl
      rw [List.map_cons, List.find?_cons, hid]
      cases hx : x.runId == q with
      | false =>
        rw [List.find?_cons, hx] at hrun
        exact ih hrun
      | true =>
        rw [List.find?_cons, hx] at hrun
        obtain rfl : x = run := Option.some.inj hrun
        simp [markRun, hn]
  · rw [statusIn_markRun runs r q target t hq]
    exact h

section
variable {p q : Protocol} {i : Nat} {l : ProtocolAct} {c a : Nat} {r : RunId} {x : RunAdmission}
  (hm : ProtocolMove p i l q) (hp : CellInv p)
include hm

theorem finalizes_move {j d : Nat} (h : (q.threads j).finalizes = some (d, r)) :
    (p.threads j).finalizes = some (d, r) ∨ l = .begin d r := by
  by_cases hji : j = i
  · subst hji
    have hself : ∀ {p' : Protocol} {th : Thread}, (p'.setThread j th).threads j = th := Function.update_self ..
    cases hm with
    | share _ hth | register _ _ hth =>
      rw [hself] at h
      generalize p.threads j = th at hth
      cases hth with
      | create | resume => cases h
      | finalize => exact Or.inl h
    | begin => rw [hself] at h; cases h; exact Or.inr rfl
    | mark hi _ | markTerminal hi _ | releaseLock hi => rw [hself] at h; rw [hi]; exact Or.inl h
    | stay | close | handle => exact Or.inl h
    | _ => rw [hself] at h; cases h
  · rw [threads_move hm hji] at h
    exact Or.inl h

theorem finalizes_of_finishes (h : l.finishes = some r) : ∃ d, (p.threads i).finalizes = some (d, r) := by
  cases hm with
  | close hi _ | mark hi _ | markTerminal hi _ | releaseLock hi | releaseWriter hi | reopen hi _ =>
    cases h
    exact ⟨_, by rw [hi]; rfl⟩
  | _ => cases h

theorem row_move (hs : l.finishes ≠ some r) {run : Run} (h : p.runs.find? (fun x => x.runId == r) = some run) :
    q.runs.find? (fun x => x.runId == r) = some run := by
  cases hm with
  | insert =>
    show (p.runs ++ [_]).find? _ = _
    rw [List.find?_append, h]
    rfl
  | mark => exact find_markRun (fun e => hs (by rw [e]; rfl)) _ _ h
  | _ => exact h

theorem terminal_move {status : RunStatus} (hn : status ≠ .running) (h : p.status r = some status) :
    q.status r = some status := by
  cases hm with
  | insert => exact statusIn_append_some p.runs r _ h
  | mark => exact statusIn_markRun_terminal hn _ _ h
  | _ => exact h

include hp

theorem has_move (hs : l.Spares c r) (h : p.registry.Has c r a x) : q.registry.Has c r a x := by
  have hka := hp.gate.held.keyed c r a h.map
  have hne : ∀ {d b : Nat} {s : RunId}, (p.threads i).cell = some (d, s, b) → ¬ (c = d ∧ r = s) → a ≠ b := by
    rintro d b s hcell hd rfl
    have hkb := hp.keyed i d s a hcell
    exact hd ⟨hka.1.1.symm.trans hkb.1.1, hka.1.2.symm.trans hkb.1.2⟩
  cases hm with
  | register ha => exact h.register hka.2 ha
  | undoWriter => exact h.releaseRunWriter hp.gate.held fun e => hs.undoWriter (by rw [e.1, e.2])
  | undoLock hi =>
    -- a call that is about to release the lock has taken its active run from the map
    refine h.releaseLock ?_
    rintro rfl
    have hdrop := hp.undone i _ _ a hi
    have hc := hka.1.1.symm.trans hdrop.keyed.1.1
    have hr := hka.1.2.symm.trans hdrop.keyed.1.2
    subst hc hr
    exact hdrop.unmapped h.map
  | close hi | reopen hi => exact h.setAdmission (hne (by rw [hi]; rfl) fun e => hs.finishes (by rw [e.2]; rfl)) _
  | markTerminal hi =>
    exact (h.setAdmission (hne (by rw [hi]; rfl) fun e => hs.finishes (by rw [e.2]; rfl)) .terminal).of_active
      rfl rfl
  | releaseLock hi => exact h.releaseLock (hne (by rw [hi]; rfl) fun e => hs.finishes (by rw [e.2]; rfl))
  | releaseWriter => exact h.releaseRunWriter hp.gate.held fun e => hs.finishes (by rw [e.2]; rfl)
  | enter | leave => exact h.setGate _ _
  | releaseAll => exact h.releaseAll hp.gate.held fun e => hs.releaseAll (by rw [e])
  | handle => exact h.runHandle hka.2 _ _
  | _ => exact h

end

/-! ## The finalizer -/

/-- The admission that the finalizer has left behind when it is about to run a step before `mark_terminal`. -/
def FinalizePc.admits (a : Nat) (x : RunAdmission) : FinalizePc → Prop
  | .ensureWriteable | .getRun | .acquire => x = .opened
  | .closeAdmission b => b = a ∧ x = .opened
  | .drain b _ | .deleteAggregates b | .insertAggregates b | .readClock b | .markRun b _ | .openAdmission b _ =>
    b = a ∧ x = .closing
  | _ => False

/-- The call is about to convert the clock or to run `mark_run_terminal` for the run. -/
def Call.unguarded (r : RunId) : Call → Bool
  | .finalizeRun _ q _ (.readClock _) | .finalizeRun _ q _ (.markRun _ _) => q == r
  | _ => false

namespace World

def row (s : World) (r : RunId) : Option Run := s.runs.find? fun run => run.runId == r

/-- The call finishes the run and has the active run, or it does not and the admission is open. -/
def Recovers (s : World) (i c : Nat) (r : RunId) (a : Nat) : Prop :=
  (∃ target pc x, s.calls i = .finalizeRun c r target pc ∧ pc.admits a x ∧ s.registry.Has c r a x) ∨
    ((∀ d, (s.calls i).thread.finalizes ≠ some (d, r)) ∧ s.registry.Has c r a .opened)

/-- The call does not finish the run, and has left the admission closed. -/
def Stuck (s : World) (i c : Nat) (r : RunId) (a : Nat) : Prop :=
  (∀ d, (s.calls i).thread.finalizes ≠ some (d, r)) ∧ s.registry.Has c r a .closing

end World

section
variable {s t : World} {i c a : Nat} {r : RunId} {env : Env} {run : Run}

theorem returned_call (s : World) (i : Nat) (result : Except EngineError (Option Run)) (d : Nat) :
    ((s.returns i result).calls i).thread.finalizes ≠ some (d, r) := by
  rw [show (s.returns i result).calls i = .returned result from Function.update_self ..]
  exact nofun

theorem recovers_of_call {target : TerminalStatus} {pc : FinalizePc} {x : RunAdmission}
    (hc : t.calls i = .finalizeRun c r target pc) (hpc : pc.admits a x) (h : t.registry.Has c r a x) :
      t.Recovers i c r a :=
  Or.inl ⟨target, pc, x, hc, hpc, h⟩

theorem runsRunning_of_row (hrow : s.row r = some run) (hrunning : run.status = .running) :
    s.runsRunning r = true := by
  have hmem := List.mem_of_find?_eq_some hrow
  have hid := List.find?_some hrow
  exact List.any_eq_true.mpr ⟨run, hmem, by simp [eq_of_beq hid, hrunning]⟩

theorem status_of_row (hrow : s.row r = some run) : statusIn s.runs r = some run.status := by
  unfold statusIn
  rw [show s.runs.find? _ = some run from hrow]
  rfl

variable {target : TerminalStatus} {pc : FinalizePc} {x : RunAdmission}
  (hrow : s.row r = some run) (hrunning : run.status = .running) (hpc : pc.admits a x)
  (hhas : s.registry.Has c r a x)
  (hs : s.finalizeRunStep i c r target env pc = some t)
include hrow hrunning hpc hhas hs

/-- A step of the finalizer that does not fail unguarded stores the run as
terminal, or the finalizer goes on or returns with the admission open. -/
theorem finalizeRun_recovers (hg : (Call.finalizeRun c r target pc).unguarded r = true → env.fails = false) :
    statusIn t.runs r = some target.val ∨ (t.row r = some run ∧ t.Recovers i c r a) := by
  have hself : ∀ {s' : World} {k : Call}, (s'.setCall i k).calls i = k := Function.update_self ..
  have hgo : ∀ {s' : World} {pc' : FinalizePc} {y : RunAdmission}, pc'.admits a y → s'.registry.Has c r a y →
      (s'.setCall i (.finalizeRun c r target pc')).Recovers i c r a :=
    fun hpc' h => recovers_of_call hself hpc' h
  have hret : ∀ {s' : World} {result : Except EngineError (Option Run)}, s'.registry.Has c r a .opened →
      (s'.returns i result).Recovers i c r a :=
    fun h => Or.inr ⟨returned_call _ i _, h⟩
  cases pc with
  | ensureWriteable =>
    obtain rfl : x = .opened := hpc
    simp only [World.finalizeRunStep] at hs
    split at hs
    · cases hs; exact Or.inr ⟨hrow, hret hhas⟩
    · cases hs; exact Or.inr ⟨hrow, hgo rfl hhas⟩
  | getRun =>
    obtain rfl : x = .opened := hpc
    simp only [World.finalizeRunStep] at hs
    repeat' split at hs
    all_goals first
      | (cases hs; exact Or.inr ⟨hrow, hgo rfl hhas⟩)
      | (cases hs; exact Or.inr ⟨hrow, hret hhas⟩)
      | cases hs
  | acquire =>
    obtain rfl : x = .opened := hpc
    simp only [World.finalizeRunStep, Registry.acquireRunWriter, hhas.map] at hs
    cases hs
    exact Or.inr ⟨hrow, hgo ⟨rfl, rfl⟩ hhas⟩
  | closeAdmission b =>
    obtain ⟨rfl, rfl⟩ : b = a ∧ x = .opened := hpc
    simp only [World.finalizeRunStep] at hs
    split at hs
    · cases hs
    · cases hs; exact Or.inr ⟨hrow, hgo ⟨rfl, rfl⟩ (hhas.readmitted .closing)⟩
  | drain b d =>
    obtain ⟨rfl, rfl⟩ : b = a ∧ x = .closing := hpc
    simp only [World.finalizeRunStep] at hs
    split at hs
    · cases hs; exact Or.inr ⟨hrow, hgo ⟨rfl, rfl⟩ hhas⟩
    · cases hs; exact Or.inr ⟨hrow, hgo ⟨rfl, rfl⟩ hhas⟩
    · obtain ⟨d', -, rfl⟩ := Option.map_eq_some_iff.mp hs
      exact Or.inr ⟨hrow, hgo ⟨rfl, rfl⟩ hhas⟩
  | deleteAggregates b | insertAggregates b =>
    obtain ⟨rfl, rfl⟩ : b = a ∧ x = .closing := hpc
    simp only [World.finalizeRunStep] at hs
    repeat' split at hs
    all_goals first
      | (cases hs; exact Or.inr ⟨hrow, hgo ⟨rfl, rfl⟩ hhas⟩)
      | cases hs
  | readClock b =>
    obtain ⟨rfl, rfl⟩ : b = a ∧ x = .closing := hpc
    have hf := hg (beq_self_eq_true r)
    simp only [World.finalizeRunStep, hf] at hs
    cases hs
    exact Or.inr ⟨hrow, hgo ⟨rfl, rfl⟩ hhas⟩
  | markRun b finishedAt =>
    obtain ⟨rfl, rfl⟩ : b = a ∧ x = .closing := hpc
    have hf := hg (beq_self_eq_true r)
    simp only [World.finalizeRunStep, hf, runsRunning_of_row hrow hrunning] at hs
    split at hs
    · cases hs
    · cases hs
      exact Or.inl (statusIn_markRun_self s.runs r target finishedAt (hrunning ▸ status_of_row hrow))
  | openAdmission b e =>
    obtain ⟨rfl, rfl⟩ : b = a ∧ x = .closing := hpc
    simp only [World.finalizeRunStep] at hs
    split at hs
    · cases hs
    · cases hs; exact Or.inr ⟨hrow, hret (hhas.readmitted .opened)⟩
  | _ => exact hpc.elim

omit hrunning in
/-- The finalizer returns from an unguarded failure with the admission closed. -/
theorem finalizeRun_stuck (hg : (Call.finalizeRun c r target pc).unguarded r = true) (hf : env.fails = true) :
    t.row r = some run ∧ t.Stuck i c r a := by
  cases pc with
  | readClock b =>
    obtain ⟨rfl, rfl⟩ : b = a ∧ x = .closing := hpc
    simp only [World.finalizeRunStep, hf] at hs
    cases hs
    exact ⟨hrow, returned_call s i _, hhas⟩
  | markRun b finishedAt =>
    obtain ⟨rfl, rfl⟩ : b = a ∧ x = .closing := hpc
    simp only [World.finalizeRunStep, hf] at hs
    split at hs
    · cases hs
    · cases hs; exact ⟨hrow, returned_call s i _, hhas⟩
  | _ => cases hg

end

/-! ## Other calls -/

/-- The call is about to take the active run from the client: a shutdown that releases
all writers, or a `create_run` that undoes its `acquire_run_writer`. -/
def Call.takesRun (c : Nat) (r : RunId) : Call → Bool
  | .shutdown d (.releaseAll _) => d == c
  | .createRun d _ _ q (.releaseWriter _ _) => d == c && q == r
  | _ => false

/-- No other call finishes the run. -/
def FinishesAlone (r : RunId) (_ : World) (act : WorldAct) : Prop := ∀ d, act.finalizes ≠ some (d, r)

/-- The call's clock conversion and its `mark_run_terminal` do not fail. -/
def Guarded (i : Nat) (r : RunId) (s : World) (act : WorldAct) : Prop :=
  ∀ env, act = .go i env → (s.calls i).unguarded r = true → env.fails = false

def KeepsRun (c : Nat) (r : RunId) (s : World) (act : WorldAct) : Prop := (act.caller s).takesRun c r = false

section
variable {s t : World} {act : WorldAct} {i c a : Nat} {r : RunId} {env : Env} {run : Run} {x : RunAdmission}

/-- Only `release_all_run_writers` makes a shutdown touch the active runs. -/
theorem shutdown_registry {pc : ShutdownPc} (hpc : ∀ result, pc ≠ .releaseAll result)
    (hs : s.shutdownStep i c env pc = some t) : t.registry = s.registry ∧ t.runs = s.runs := by
  cases pc with
  | reporter d =>
    unfold World.shutdownStep at hs
    split at hs
    · cases hs; exact ⟨rfl, rfl⟩
    · cases hs; exact ⟨rfl, rfl⟩
    · obtain ⟨y, -, rfl⟩ := Option.map_eq_some_iff.mp hs
      exact ⟨rfl, rfl⟩
    all_goals (rename_i he; cases he)
  | releaseAll result => exact absurd rfl (hpc result)
  | store => cases hs; exact ⟨rfl, rfl⟩

theorem finalizes_step (hs : s.step act = some t) (hu : ∀ d, act.finalizes ≠ some (d, r)) {j d : Nat}
    (h : (t.calls j).thread.finalizes = some (d, r)) : (s.calls j).thread.finalizes = some (d, r) := by
  obtain ⟨k, l, hm, hof⟩ := world_refines hs
  rcases finalizes_move hm h with h | rfl
  · exact h
  · cases hof with
    | begins hreq => exact absurd hreq (hu d)
    | go hby => exact absurd rfl (hby.begins d r)

theorem keyed_step (hs : s.step act = some t) (h : s.registry.Keyed c r a) : t.registry.Keyed c r a := by
  obtain ⟨k, l, hm, -⟩ := world_refines hs
  exact keyed_move hm h

theorem dropped_step (hs : s.step act = some t) (h : s.registry.Dropped c r a) : t.registry.Dropped c r a := by
  obtain ⟨k, l, hm, -⟩ := world_refines hs
  exact dropped_move hm h

theorem taken_step (hs : s.step act = some t) (hk : ¬ KeepsRun c r s act) : t.registry.activeRuns c r = none := by
  unfold KeepsRun at hk
  cases act with
  | go k env =>
    simp only [WorldAct.caller] at hk
    unfold Call.takesRun at hk
    split at hk
    case h_1 d result hc =>
      obtain rfl : d = c := by simpa using hk
      have hnone : (s.registry.releaseAllRunWriters d).activeRuns d r = none := by
        rw [Registry.releaseAll_activeRuns, if_pos rfl]
      simp only [World.step, hc, World.callStep] at hs
      unfold World.shutdownStep at hs
      dsimp only at hs
      split at hs <;> cases hs <;> exact hnone
    case h_2 d _ _ q b e hc =>
      obtain ⟨rfl, rfl⟩ : d = c ∧ q = r := by simpa using hk
      simp only [World.step, hc, World.callStep, World.createRunStep] at hs
      cases hs
      show (s.registry.releaseRunWriter d q).activeRuns d q = none
      rw [Registry.releaseRunWriter_activeRuns, if_pos ⟨rfl, rfl⟩]
    case h_3 => exact absurd rfl hk
  | _ => exact absurd rfl hk

theorem terminal_step (hs : s.step act = some t) {status : RunStatus} (hn : status ≠ .running)
    (h : statusIn s.runs r = some status) : statusIn t.runs r = some status := by
  obtain ⟨k, l, hm, -⟩ := world_refines hs
  exact terminal_move hm hn h

/-- A step that is not the run's finalizer leaves its row and its active run alone. -/
theorem spared_step (hcell : CellInv s.protocol) (hk : KeepsRun c r s act)
    (hother : ∀ k env, act = .go k env → ∀ d, (s.calls k).thread.finalizes ≠ some (d, r)) (hs : s.step act = some t)
    (hrow : s.row r = some run) (hhas : s.registry.Has c r a x) : t.row r = some run ∧ t.registry.Has c r a x := by
  have hkeep : t.registry = s.registry → t.runs = s.runs → t.row r = some run ∧ t.registry.Has c r a x := by
    intro hg hruns
    rw [World.row, hruns, hg]
    exact ⟨hrow, hhas⟩
  obtain ⟨k, l, hm, hof⟩ := world_refines hs
  have hspares : l.Spares c r → t.row r = some run ∧ t.registry.Has c r a x :=
    fun h => ⟨row_move hm h.finishes hrow, has_move hm hcell h hhas⟩
  cases hof with
  | start | begins | handle | work => exact hspares ⟨by simp [ProtocolAct.finishes], by simp, by simp⟩
  | go hby =>
    rename_i env
    have hw : (s.calls k).takesRun c r = false := hk
    by_cases hsd : ∃ d pc, s.calls k = .shutdown d pc ∧ ∀ result, pc ≠ .releaseAll result
    · obtain ⟨d, pc, hc, hpc⟩ := hsd
      simp only [World.step, hc] at hs
      obtain ⟨hg, hruns⟩ := shutdown_registry hpc hs
      exact hkeep hg hruns
    · refine hspares ⟨fun hf => ?_, ?_, ?_⟩
      · obtain ⟨d, hd⟩ := finalizes_of_finishes hm hf
        exact hother k env rfl d hd
      · rintro rfl
        obtain ⟨_, _, _, hc⟩ := thread_undoing (k := s.calls k) (thread_of_undoWriter hm).choose_spec
        simp [hc, Call.takesRun] at hw
      · rintro rfl
        obtain ⟨pc, hc⟩ := thread_tearing (k := s.calls k) (thread_of_releaseAll hm)
        by_cases hpc : ∃ result, pc = .releaseAll result
        · obtain ⟨result, rfl⟩ := hpc
          simp [hc, Call.takesRun] at hw
        · exact hsd ⟨c, pc, hc, fun result e => hpc ⟨result, e⟩⟩

end

/-! ## Runs -/

/-- No other call finishes the run, and its row is as it was. -/
structure Settling (s : World) (i : Nat) (r : RunId) (run : Run) : Prop where
  cells : CellInv s.protocol
  others : ∀ j, j ≠ i → ∀ d, (s.calls j).thread.finalizes ≠ some (d, r)
  row : s.row r = some run

section
variable {s t : World} {act : WorldAct} {i c a : Nat} {r : RunId} {run : Run} (h : Settling s i r run)
  (hu : FinishesAlone r s act) (hs : s.step act = some t)
include h hu hs

theorem Settling.step (hrow : t.row r = some run) : Settling t i r run where
  cells := cellInv_step h.cells hs
  others j hj d hd := h.others j hj d (finalizes_step hs hu hd)
  row := hrow

variable (hk : KeepsRun c r s act)
include hk

theorem Settling.free {x : RunAdmission} (hfree : ∀ d, (s.calls i).thread.finalizes ≠ some (d, r))
    (hhas : s.registry.Has c r a x) :
    Settling t i r run ∧ (∀ d, (t.calls i).thread.finalizes ≠ some (d, r)) ∧ t.registry.Has c r a x := by
  have hother : ∀ k env, act = .go k env → ∀ d, (s.calls k).thread.finalizes ≠ some (d, r) := by
    intro k env _
    by_cases hk : k = i
    · rw [hk]; exact hfree
    · exact h.others k hk
  obtain ⟨hrow, hhas'⟩ := spared_step h.cells hk hother hs h.row hhas
  exact ⟨h.step hu hs hrow, fun d hd => hfree d (finalizes_step hs hu hd), hhas'⟩

theorem Settling.stuck (hstuck : s.Stuck i c r a) : Settling t i r run ∧ t.Stuck i c r a :=
  h.free hu hs hk hstuck.1 hstuck.2

variable (hrunning : run.status = .running) (hr : s.Recovers i c r a)
include hrunning hr

theorem Settling.recovers (hg : Guarded i r s act) :
    (∃ status, status ≠ RunStatus.running ∧ statusIn t.runs r = some status) ∨
      (Settling t i r run ∧ t.Recovers i c r a) := by
  rcases hr with ⟨target, pc, x, hc, hpc, hhas⟩ | ⟨hfree, hhas⟩
  · by_cases hact : ∃ env, act = .go i env
    -- the finalizer's own step
    · obtain ⟨env, rfl⟩ := hact
      have hown : s.finalizeRunStep i c r target env pc = some t := by
        simpa [World.step, hc, World.callStep] using hs
      rcases finalizeRun_recovers h.row hrunning hpc hhas hown (hc ▸ hg env rfl) with hover | ⟨hrow, hrec⟩
      · exact Or.inl ⟨target.val, target.property, hover⟩
      · exact Or.inr ⟨h.step hu hs hrow, hrec⟩
    · have hother : ∀ k env, act = .go k env → ∀ d, (s.calls k).thread.finalizes ≠ some (d, r) := by
        rintro k env rfl
        exact h.others k fun e => hact ⟨env, by rw [e]⟩
      obtain ⟨hrow, hhas'⟩ := spared_step h.cells hk hother hs h.row hhas
      have hcall : t.calls i = s.calls i := by
        rcases calls_step hs i with e | ⟨request, -, hb, -⟩ | ⟨env, rfl, -⟩
        · exact e
        · rw [hc] at hb; cases hb
        · exact absurd ⟨env, rfl⟩ hact
      exact Or.inr ⟨h.step hu hs hrow, Or.inl ⟨target, pc, x, hcall.trans hc, hpc, hhas'⟩⟩
  · obtain ⟨ht, hfree', hhas'⟩ := h.free hu hs hk hfree hhas
    exact Or.inr ⟨ht, Or.inr ⟨hfree', hhas'⟩⟩

omit hk hrunning in
theorem Settling.sticks (hg : ¬ Guarded i r s act) : Settling t i r run ∧ t.Stuck i c r a := by
  unfold Guarded at hg
  push Not at hg
  obtain ⟨env, rfl, hung, hf⟩ := hg
  rcases hr with ⟨target, pc, x, hc, hpc, hhas⟩ | ⟨hfree, -⟩
  · have hown : s.finalizeRunStep i c r target env pc = some t := by simpa [World.step, hc, World.callStep] using hs
    obtain ⟨hrow, hstuck⟩ := finalizeRun_stuck h.row hpc hhas hown (hc ▸ hung) (by simpa using hf)
    exact ⟨h.step hu hs hrow, hstuck⟩
  · cases hk : s.calls i with
    | finalizeRun d q target pc =>
      rw [hk] at hung hfree
      cases pc <;> simp only [Call.unguarded, beq_iff_eq, Bool.false_eq_true] at hung
      all_goals exact absurd (by rw [hung]; rfl) (hfree d)
    | _ => simp [hk, Call.unguarded] at hung

end

section
variable {i c a : Nat} {r : RunId} {run : Run} {t : World} {acts : List WorldAct}

theorem keeps_run {s : World} (h : exec World.step s acts = some t) (hkeyed : s.registry.Keyed c r a)
    (hmap : t.registry.activeRuns c r = some a) : Meets World.step (KeepsRun c r) s acts := by
  refine meets_of_unmarked World.step (I := fun s => s.registry.Keyed c r a)
    (B := fun s => s.registry.Dropped c r a)
    (fun _ _ _ hst hi => keyed_step hst hi) (fun _ _ _ hst hi hk => ⟨keyed_step hst hi, ?_⟩)
    (fun _ _ _ hst hi => dropped_step hst hi) h hkeyed fun hd => hd.unmapped hmap
  rw [taken_step hst hk]
  exact nofun

theorem stuck_run {s : World} (h : exec World.step s acts = some t) (hm : Meets World.step (FinishesAlone r) s acts)
    (hk : Meets World.step (KeepsRun c r) s acts) (hs : Settling s i r run ∧ s.Stuck i c r a) :
    Settling t i r run ∧ t.Stuck i c r a :=
  exec_inv World.step (I := fun s => Settling s i r run ∧ s.Stuck i c r a)
    (fun _ _ _ hu hst hi => hi.1.stuck hu.1 hst hu.2 hi.2) ((meets_and World.step).mpr ⟨hm, hk⟩) h hs

theorem terminal_run {s : World} (h : exec World.step s acts = some t) {status : RunStatus} (hn : status ≠ .running)
    (hs : statusIn s.runs r = some status) : statusIn t.runs r = some status :=
  exec_inv_all World.step (fun _ _ _ hst hi => terminal_step hst hn hi) h hs

/-- A run that ends with the run still running and in the client's map has opened the
admission again just when no unguarded step has failed. -/
theorem recovery_run {s : World} (h : exec World.step s acts = some t)
    (hm : Meets World.step (FinishesAlone r) s acts) (hk : Meets World.step (KeepsRun c r) s acts)
    (hs : Settling s i r run) (hrunning : run.status = .running)
    (hr : s.Recovers i c r a) (hstill : statusIn t.runs r = some .running) :
    Settling t i r run ∧ (Meets World.step (Guarded i r) s acts ∧ t.Recovers i c r a ∨
      ¬ Meets World.step (Guarded i r) s acts ∧ t.Stuck i c r a) := by
  induction acts generalizing s with
  | nil =>
    obtain rfl : s = t := Option.some.inj h
    exact ⟨hs, Or.inl ⟨trivial, hr⟩⟩
  | cons act acts ih =>
    obtain ⟨u, hu, hrest⟩ := (exec_cons World.step).mp h
    have hnext : Meets World.step (Guarded i r) s (act :: acts) ↔
        Guarded i r s act ∧ Meets World.step (Guarded i r) u acts := by
      simp [Meets, hu]
    by_cases hg : Guarded i r s act
    · rcases hs.recovers hm.1 hu hk.1 hrunning hr hg with ⟨status, hn, hover⟩ | ⟨hs', hr'⟩
      · rw [terminal_run hrest hn hover] at hstill
        exact absurd (Option.some.inj hstill) hn
      · rw [hnext]
        simpa only [hg, true_and] using ih hrest (hm.2 u hu) (hk.2 u hu) hs' hr'
    · obtain ⟨hs', hstuck⟩ := stuck_run hrest (hm.2 u hu) (hk.2 u hu) (hs.sticks hm.1 hu hr hg)
      exact ⟨hs', Or.inr ⟨fun e => hg e.1, hstuck⟩⟩

end

/-- A `finish_run` or `fail_run` on a run with open admission that returns an
error and leaves the run stored as running, while no other call finishes the run:
the row is as it was and the client has the lock and the open admission, just when
the clock was converted, `mark_run_terminal` did not fail and no call took the
active run from the client. -/
theorem failed_finalization_continues_iff {projects : List Project} {runs : List Run} {capacity : Nat → Nat}
    {past : List WorldAct} {s : World} (hpast : exec World.step (World.init projects runs capacity) past = some s)
    {i c a : Nat} {r : RunId} {target : TerminalStatus} {run : Run}
    (hcall : s.calls i = .finalizeRun c r target .ensureWriteable) (hhas : s.registry.Has c r a .opened)
    (hrow : s.row r = some run) (hrunning : run.status = .running)
    (halone : ∀ j, j ≠ i → (s.calls j).finalizing ≠ some r) {acts : List WorldAct} {t : World}
    (h : exec World.step s acts = some t) (hm : Meets World.step (FinishesAlone r) s acts) {error : EngineError}
    (hreturned : t.calls i = .returned (.error error)) (hstill : statusIn t.runs r = some .running) :
    (t.row r = some run ∧ t.holdsLock c r ∧ t.registry.Has c r a .opened) ↔
      Meets World.step (fun s act => Guarded i r s act ∧ KeepsRun c r s act) s acts := by
  have hcells : CellInv s.protocol :=
    exec_inv_all World.step (I := fun s => CellInv s.protocol) (fun _ _ _ hst hi => cellInv_step hi hst) hpast
      (cellInv_init projects runs capacity)
  have hs : Settling s i r run :=
    ⟨hcells, fun j hj d hd => halone j hj (finalizing_of_thread hd), hrow⟩
  have hrec : s.Recovers i c r a := Or.inl ⟨target, .ensureWriteable, .opened, hcall, rfl, hhas⟩
  rw [meets_and World.step]
  constructor
  · rintro ⟨-, -, hopen⟩
    have hk := keeps_run h (hcells.gate.held.keyed c r a hhas.map) hopen.map
    refine ⟨?_, hk⟩
    obtain ⟨-, ⟨hg, -⟩ | ⟨-, hstuck⟩⟩ := recovery_run h hm hk hs hrunning hrec hstill
    · exact hg
    · cases hopen.admission.symm.trans hstuck.2.admission
  · rintro ⟨hg, hk⟩
    obtain ⟨ht, ⟨-, hrec'⟩ | ⟨hng, -⟩⟩ := recovery_run h hm hk hs hrunning hrec hstill
    · rcases hrec' with ⟨_, _, _, hc, -⟩ | ⟨-, hopen⟩
      · rw [hreturned] at hc; cases hc
      · have hkey := ht.cells.gate.held.keyed c r a hopen.map
        have hlock := ht.cells.gate.held.locked a hopen.guard
        rw [hkey.1.2] at hlock
        exact ⟨ht.row, ⟨a, hlock, hkey.1⟩, hopen⟩
    · exact absurd hg hng

/-- The run is created, and a thread is about to finish it. -/
def finishingRun : List WorldAct := createActs ++ [.start 1 (.finishRun 0 "r")]

def unmarkedSteps : List WorldAct := List.replicate 11 (.go 1 {}) ++ [.go 1 { fails := true }]

/-- The delete of the aggregates fails, and the admission is opened again. -/
def reopenedSteps : List WorldAct := List.replicate 8 (.go 1 {}) ++ [.go 1 { fails := true }, .go 1 {}]

def WorldAct.succeeds : WorldAct → Bool
  | .go _ env => !env.fails
  | _ => true

def createdRun : Run := ⟨"r", "p", "n", .running, 0, 0, none⟩

theorem finishesAlone_of_none {r : RunId} {s : World} {act : WorldAct} (hf : act.finalizes = none) :
    FinishesAlone r s act := fun d => by rw [hf]; exact nofun

theorem finishing_alone {s : World}
    (h : exec World.step (World.init [⟨"p", "p", 0⟩] [] fun _ => 1) finishingRun = some s) :
    ∀ j, j ≠ 1 → (s.calls j).finalizing ≠ some "r" := by
  have hs : ∃ s, exec World.step (World.init [⟨"p", "p", 0⟩] [] fun _ => 1) finishingRun = some s ∧
      ∀ j, j ≠ 1 → (s.calls j).finalizing = none := by
    refine ⟨_, rfl, fun j hj => ?_⟩
    match j, hj with
    | 0, _ => rfl
    | j + 2, _ => rfl
  obtain ⟨u, hu, hnone⟩ := hs
  rw [h] at hu
  cases hu
  intro j hj
  rw [hnone j hj]
  exact nofun

theorem failed_finalization_continues_iff_reopened : ∃ s t,
    exec World.step (World.init [⟨"p", "p", 0⟩] [] fun _ => 1) finishingRun = some s ∧
      exec World.step s reopenedSteps = some t ∧
      t.calls 1 = .returned (.error (.storageFailure "deleting aggregates")) ∧
      t.row "r" = some createdRun ∧ t.holdsLock 0 "r" ∧ t.registry.Has 0 "r" 0 .opened := by
  have hrun : ∃ s t, exec World.step (World.init [⟨"p", "p", 0⟩] [] fun _ => 1) finishingRun = some s ∧
      s.calls 1 = .finalizeRun 0 "r" ⟨.finished, by decide⟩ .ensureWriteable ∧ s.registry.Has 0 "r" 0 .opened ∧
      s.row "r" = some createdRun ∧ exec World.step s reopenedSteps = some t ∧
      Meets World.step (fun s act => act.finalizes = none ∧ (act.caller s).takesRun 0 "r" = false ∧
        (act.succeeds = true ∨ (s.calls 1).unguarded "r" = false)) s reopenedSteps ∧
      t.calls 1 = .returned (.error (.storageFailure "deleting aggregates")) ∧
      statusIn t.runs "r" = some .running :=
    ⟨_, _, rfl, rfl, ⟨rfl, rfl, rfl⟩, rfl, rfl, by decide, rfl, rfl⟩
  obtain ⟨s, t, h, hc, hhas, hrow, hsteps, hm, hret, hstill⟩ := hrun
  have hfinishes : Meets World.step (FinishesAlone "r") s reopenedSteps :=
    meets_mono World.step (fun s act hn => finishesAlone_of_none hn.1) hm
  have hguarded : Meets World.step (fun s act => Guarded 1 "r" s act ∧ KeepsRun 0 "r" s act) s reopenedSteps := by
    refine meets_mono World.step (fun s act hn => ⟨fun env e hung => ?_, hn.2.1⟩) hm
    rcases hn.2.2 with hgo | hno
    · rw [e] at hgo
      simpa [WorldAct.succeeds] using hgo
    · rw [hung] at hno
      cases hno
  have hok :=
    (failed_finalization_continues_iff h hc hhas hrow rfl (finishing_alone h) hsteps hfinishes hret hstill).mpr
    hguarded
  exact ⟨s, t, h, hsteps, hret, hok.1, hok.2.1, hok.2.2⟩

/-- When `mark_run_terminal` fails, the run is still running, and its handle is refused. -/
theorem unmarked_run_stays_closed : ∃ s t u,
    exec World.step (World.init [⟨"p", "p", 0⟩] [] fun _ => 1) finishingRun = some s ∧
      s.calls 1 = .finalizeRun 0 "r" ⟨.finished, by decide⟩ .ensureWriteable ∧ s.registry.Has 0 "r" 0 .opened ∧
      s.row "r" = some createdRun ∧ (∀ j, j ≠ 1 → (s.calls j).finalizing ≠ some "r") ∧
      exec World.step s unmarkedSteps = some t ∧ Meets World.step (FinishesAlone "r") s unmarkedSteps ∧
      Meets World.step (KeepsRun 0 "r") s unmarkedSteps ∧
      t.calls 1 = .returned (.error (.storageFailure "updating run")) ∧ t.row "r" = some createdRun ∧
      ¬ t.registry.Has 0 "r" 0 .opened ∧
      exec World.step t [.start 2 (.logMetricAtStep handleR "k" 0 ⟨0⟩), .go 2 {}] = some u ∧
      u.calls 2 = .returned (.error (.runClosed "r")) := by
  have hrun : ∃ s t u, exec World.step (World.init [⟨"p", "p", 0⟩] [] fun _ => 1) finishingRun = some s ∧
      s.calls 1 = .finalizeRun 0 "r" ⟨.finished, by decide⟩ .ensureWriteable ∧ s.registry.Has 0 "r" 0 .opened ∧
      s.row "r" = some createdRun ∧ exec World.step s unmarkedSteps = some t ∧
      Meets World.step (fun s act => act.finalizes = none ∧ (act.caller s).takesRun 0 "r" = false) s unmarkedSteps ∧
      t.calls 1 = .returned (.error (.storageFailure "updating run")) ∧ t.row "r" = some createdRun ∧
      (t.registry.active 0).admission = .closing ∧
      exec World.step t [.start 2 (.logMetricAtStep handleR "k" 0 ⟨0⟩), .go 2 {}] = some u ∧
      u.calls 2 = .returned (.error (.runClosed "r")) :=
    ⟨_, _, _, rfl, rfl, ⟨rfl, rfl, rfl⟩, rfl, rfl, by decide, rfl, rfl, rfl, rfl, rfl⟩
  obtain ⟨s, t, u, h, hc, hhas, hrow, hsteps, hm, hret, hrow', hclosing, hu, hclosed⟩ := hrun
  refine ⟨s, t, u, h, hc, hhas, hrow, finishing_alone h, hsteps, ?_, ?_, hret, hrow', fun hopen => ?_, hu, hclosed⟩
  · exact meets_mono World.step (fun s act hn => finishesAlone_of_none hn.1) hm
  · exact meets_mono World.step (fun s act hn => hn.2) hm
  · cases hclosing.symm.trans hopen.admission

end Pulseon
