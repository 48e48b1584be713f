import Pulseon.StatusSound
import Pulseon.ConnectionSound

/-!
# Uniqueness of run ids

`pulseon_runs` has no constraint. A `create_run` checks and inserts under the
connection lock of its client and under the lock file of the run, which other
creators of the client share. The lock is given up by calls that have found the
run stored, or by a shutdown of the client.
-/

namespace Pulseon

/-! ## Locks of runs that are created -/

/-- The active run of a `create_run` between its `acquire_run_writer` and its insert. -/
def Thread.inserts : Thread → Option (Nat × RunId × Nat)
  | .checking c r a | .inserting c r a => some (c, r, a)
  | _ => none

/-- An active run of an absent run keeps its guard in the map, and the calls that create the run have it. -/
structure CreateInv (p : Protocol) : Prop where
  held : p.registry.Held
  keyed : ∀ i c r a, (p.threads i).cell = some (c, r, a) → p.registry.Keyed c r a
  guarded : ∀ c r a, p.registry.activeRuns c r = some a → p.status r = none →
    (p.registry.active a).writerGuard = true
  shared : ∀ i c r a, (p.threads i).inserts = some (c, r, a) → p.status r = none →
    p.registry.activeRuns c r = some a

/-- A lock is released of a stored run, or with all of a client that creates none. -/
structure ReleasesStored (p : Protocol) (l : ProtocolAct) : Prop where
  releases : ∀ c r, l = .undoWriter c r ∨ l = .undoLock c r ∨ l = .releaseLock c r ∨ l = .releaseWriter c r →
    p.status r ≠ none
  releasesAll : ∀ c, l = .releaseAll c → ∀ i r a, (p.threads i).inserts ≠ some (c, r, a)

section
variable {p q : Protocol} {i : Nat} {l : ProtocolAct}

theorem CreateInv.build (h : CreateInv p) (g : Registry) (runs : List Run) (torn : Nat → Bool) {th : Thread}
    (hheld : g.Held) (hkeyed : ∀ c r a, p.registry.Keyed c r a → g.Keyed c r a)
    (hruns : ∀ r, statusIn runs r = none → p.status r = none)
    (hguard : ∀ c r a, g.activeRuns c r = some a → p.status r = none → (g.active a).writerGuard = true)
    (hmap : ∀ j c r a, (p.threads j).inserts = some (c, r, a) → p.status r = none →
      p.registry.activeRuns c r = some a → g.activeRuns c r = some a)
    (hcell : ∀ c r a, th.cell = some (c, r, a) → g.Keyed c r a)
    (hown : ∀ c r a, th.inserts = some (c, r, a) → p.status r = none → g.activeRuns c r = some a) :
    CreateInv (Protocol.setThread ⟨g, runs, torn, p.threads⟩ i th) := by
  have hself : (Protocol.setThread ⟨g, runs, torn, p.threads⟩ i th).threads i = th := Function.update_self ..
  have hother : ∀ j, j ≠ i → (Protocol.setThread ⟨g, runs, torn, p.threads⟩ i th).threads j = p.threads j :=
    fun j hj => Function.update_of_ne hj ..
  refine ⟨hheld, fun j c r a hj => ?_, fun c r a ha hr => hguard c r a ha (hruns r hr), fun j c r a hj hr => ?_⟩
  · by_cases hji : j = i
    · rw [hji, hself] at hj; exact hcell c r a hj
    · rw [hother j hji] at hj; exact hkeyed c r a (h.keyed j c r a hj)
  · by_cases hji : j = i
    · rw [hji, hself] at hj; exact hown c r a hj (hruns r hr)
    · rw [hother j hji] at hj; exact hmap j c r a hj (hruns r hr) (h.shared j c r a hj (hruns r hr))

theorem CreateInv.setThread (h : CreateInv p) {th : Thread}
    (hcell : ∀ c r a, th.cell = some (c, r, a) → p.registry.Keyed c r a)
    (hown : ∀ c r a, th.inserts = some (c, r, a) → p.status r = none → p.registry.activeRuns c r = some a) :
    CreateInv (p.setThread i th) :=
  h.build p.registry p.runs p.torn h.held (fun _ _ _ e => e) (fun _ e => e) h.guarded (fun _ _ _ _ _ _ e => e) hcell
    hown

theorem CreateInv.releaseLock (h : CreateInv p) {c a : Nat} {r : RunId} {th : Thread} (hr : p.status r ≠ none)
    (hk : p.registry.Keyed c r a) (hcell : ∀ d q b, th.cell = some (d, q, b) → p.registry.Keyed d q b)
    (hth : th.inserts = none) : CreateInv ((p.setRegistry (p.registry.releaseLock a)).setThread i th) := by
  refine h.build (p.registry.releaseLock a) p.runs p.torn (h.held.releaseLock a)
    (p.registry.keeps_releaseLock a).keyed (fun _ e => e) (fun d q b hb hq => ?_) (fun _ d q b _ _ hb => ?_)
    (fun d q b e => (p.registry.keeps_releaseLock a).keyed d q b (hcell d q b e)) fun d q b e => ?_
  · rw [Registry.releaseLock_activeRuns] at hb
    rw [Registry.releaseLock_active, if_neg]
    · exact h.guarded d q b hb hq
    · -- the released active run is of a stored run
      intro e
      have hkey := (h.held.keyed d q b hb).1.2
      rw [e, hk.1.2] at hkey
      exact hr (hkey ▸ hq)
  · rw [Registry.releaseLock_activeRuns]; exact hb
  · rw [hth] at e; cases e

theorem CreateInv.releaseRunWriter (h : CreateInv p) {c : Nat} {r : RunId} {th : Thread} (hr : p.status r ≠ none)
    (hcell : ∀ d q b, th.cell = some (d, q, b) → p.registry.Keyed d q b) (hth : th.inserts = none) :
    CreateInv ((p.setRegistry (p.registry.releaseRunWriter c r)).setThread i th) := by
  have hkeep := p.registry.keeps_releaseRunWriter c r
  refine h.build (p.registry.releaseRunWriter c r) p.runs p.torn (h.held.releaseRunWriter c r) hkeep.keyed
    (fun _ e => e) (fun d q b hb hq => ?_) (fun _ d q b _ hq hb => ?_)
    (fun d q b e => hkeep.keyed d q b (hcell d q b e)) fun d q b e => ?_
  · rw [Registry.releaseRunWriter_activeRuns] at hb
    split at hb
    · cases hb
    · rw [Registry.releaseRunWriter_active, if_neg]
      · exact h.guarded d q b hb hq
      · intro e
        have hkey := (h.held.unique e hb).2
        exact hr (hkey ▸ hq)
  · rw [Registry.releaseRunWriter_activeRuns, if_neg]
    · exact hb
    · rintro ⟨-, rfl⟩; exact hr hq
  · rw [hth] at e; cases e

theorem CreateInv.setRegistry (h : CreateInv p) {g : Registry} (hheld : g.Held)
    (hkeyed : ∀ c r a, p.registry.Keyed c r a → g.Keyed c r a) (hmap : g.activeRuns = p.registry.activeRuns)
    (hguard : ∀ c r a, p.registry.Keyed c r a → (g.active a).writerGuard = (p.registry.active a).writerGuard) :
    CreateInv (p.setRegistry g) := by
  refine ⟨hheld, fun j c r a hj => hkeyed c r a (h.keyed j c r a hj),
    fun c r a ha hr => ?_, fun j c r a hj hr => ?_⟩
  · change g.activeRuns c r = some a at ha
    rw [hmap] at ha
    show (g.active a).writerGuard = true
    rw [hguard c r a (h.held.keyed c r a ha)]
    exact h.guarded c r a ha hr
  · show g.activeRuns c r = some a
    rw [hmap]; exact h.shared j c r a hj hr

theorem CreateInv.setAdmission (h : CreateInv p) (a : Nat) (x : RunAdmission) :
    CreateInv (p.setRegistry (p.registry.setAdmission a x)) := by
  refine h.setRegistry (h.held.setAdmission a x) (fun c r b e => ?_) rfl fun c r b _ => ?_
  · simp only [Registry.Keyed, Registry.setAdmission_client, Registry.setAdmission_runId]; exact e
  · rw [Registry.setAdmission_writerGuard]

theorem CreateInv.setGate (h : CreateInv p) (a : Nat) (x : Option Nat) :
    CreateInv (p.setRegistry (p.registry.setGate a x)) := by
  refine h.setRegistry (h.held.setGate a x) (fun c r b e => ?_) rfl fun c r b _ => ?_
  · simp only [Registry.Keyed, Registry.setGate_client, Registry.setGate_runId]; exact e
  · rw [Registry.setGate_writerGuard]

theorem CreateInv.move (h : CreateInv p) (hl : ReleasesStored p l) (hm : ProtocolMove p i l q) : CreateInv q := by
  have hback : ∀ r, q.status r = none → p.status r = none := fun r e => status_back hm e
  cases hm with
  | stay => exact h
  | returns | begin | absent =>
    exact h.setThread (fun _ _ _ e => by cases e) (fun _ _ _ e => by cases e)
  | share ha hth =>
    rename_i c r a th
    have hkey := h.held.keyed c r a ha
    refine h.setThread (fun d q b e => ?_) (fun d q b e _ => ?_)
    · generalize p.threads i = ti at hth
      cases hth <;> cases e <;> exact hkey
    · generalize p.threads i = ti at hth
      cases hth <;> cases e
      exact ha
  | register ha hlock hth =>
    rename_i c r th
    have hnew : (p.registry.register c r).activeRuns c r = some p.registry.fresh := by
      rw [Registry.register_activeRuns, if_pos ⟨rfl, rfl⟩]
    have hheld := h.held.register (c := c) hlock
    have hkey := hheld.keyed c r _ hnew
    refine h.build (p.registry.register c r) p.runs p.torn hheld (p.registry.keeps_register c r).keyed
      (fun _ e => e) (fun d q b hb hq => ?_) (fun _ d q b _ _ hb => ?_) (fun d q b e => ?_) fun d q b e _ => ?_
    · rw [Registry.register_activeRuns] at hb
      rw [Registry.register_active]
      split at hb
      · cases hb; rw [if_pos rfl]
      · have hlt := (h.held.keyed d q b hb).2
        rw [if_neg (by omega)]
        exact h.guarded d q b hb hq
    · rw [Registry.register_activeRuns, if_neg]
      · exact hb
      · rintro ⟨rfl, rfl⟩; rw [ha] at hb; cases hb
    · generalize p.registry.fresh = f at hth hkey
      generalize p.threads i = ti at hth
      cases hth <;> cases e <;> exact hkey
    · generalize p.registry.fresh = f at hth hnew
      generalize p.threads i = ti at hth
      cases hth <;> cases e
      exact hnew
  | check hi =>
    refine h.setThread (fun d q b e => ?_) (fun d q b e hq => ?_)
    · cases e; exact h.keyed i _ _ _ (by rw [hi]; rfl)
    · cases e; exact h.shared i _ _ _ (by rw [hi]; rfl) hq
  | insert hi =>
    exact h.build p.registry (p.runs ++ [_]) p.torn h.held (fun _ _ _ e => e) hback h.guarded
      (fun _ _ _ _ _ _ e => e) (fun _ _ _ e => by cases e) fun _ _ _ e => by cases e
  | undo hi =>
    refine h.setThread (fun d q b e => ?_) (fun d q b e => by cases e)
    cases e
    rcases hi with hi | hi <;> exact h.keyed i _ _ _ (by rw [hi]; rfl)
  | undoWriter hi =>
    refine h.releaseRunWriter (hl.releases _ _ (Or.inl rfl)) (fun d q b e => ?_) rfl
    cases e; exact h.keyed i _ _ _ (by rw [hi]; rfl)
  | undoLock hi =>
    exact h.releaseLock (hl.releases _ _ (Or.inr (Or.inl rfl))) (h.keyed i _ _ _ (by rw [hi]; rfl))
      (fun d q b e => by cases e) rfl
  | mark hi =>
    rename_i c r a target t _
    refine h.build p.registry (p.runs.map (markRun r target t)) p.torn h.held (fun _ _ _ e => e) hback h.guarded
      (fun _ _ _ _ _ _ e => e) (fun d q b e => ?_) fun _ _ _ e => by cases e
    cases e; exact h.keyed i _ _ _ (by rw [hi]; rfl)
  | releaseLock hi =>
    have hk := h.keyed i _ _ _ (by rw [hi]; rfl)
    refine h.releaseLock (hl.releases _ _ (Or.inr (Or.inr (Or.inl rfl)))) hk (fun d q b e => ?_) rfl
    cases e; exact hk
  | releaseWriter hi =>
    exact h.releaseRunWriter (hl.releases _ _ (Or.inr (Or.inr (Or.inr rfl)))) (fun d q b e => by cases e) rfl
  | close => exact h.setAdmission _ _
  | markTerminal hi =>
    rename_i c r a _
    have hadm := h.setAdmission a .terminal
    have hterm : CreateInv (p.setRegistry (p.registry.markTerminal c r a)) :=
      ⟨⟨hadm.held.keyed, hadm.held.locked⟩, hadm.keyed, hadm.guarded, hadm.shared⟩
    refine hterm.setThread (fun d q b e => ?_) fun d q b e => by cases e
    cases e
    refine hterm.keyed i c r a ?_
    show (p.threads i).cell = _
    rw [hi]; rfl
  | reopen => exact (h.setAdmission _ _).setThread (fun d q b e => by cases e) fun d q b e => by cases e
  | enter | leave => exact (h.setGate _ _).setThread (fun d q b e => by cases e) fun d q b e => by cases e
  | tear =>
    exact h.build p.registry p.runs (Function.update p.torn _ true) h.held (fun _ _ _ e => e) hback h.guarded
      (fun _ _ _ _ _ _ e => e) (fun _ _ _ e => by cases e) fun _ _ _ e => by cases e
  | releaseAll =>
    rename_i c _
    have hkeep := p.registry.keeps_releaseAll c
    refine h.build (p.registry.releaseAllRunWriters c) p.runs p.torn (h.held.releaseAll c) hkeep.keyed hback
      (fun d q b hb hq => ?_) (fun j d q b hj _ hb => ?_) (fun _ _ _ e => by cases e) fun _ _ _ e => by cases e
    · rw [Registry.releaseAll_activeRuns] at hb
      split at hb
      · cases hb
      · rename_i hdc
        rw [Registry.releaseAll_active, if_neg]
        · exact h.guarded d q b hb hq
        · -- the map of another client keeps its entries
          intro hreg
          simp only [Registry.registered, Bool.and_eq_true, beq_iff_eq] at hreg
          exact hdc ((h.held.keyed d q b hb).1.1.symm.trans hreg.1)
    · rw [Registry.releaseAll_activeRuns, if_neg]
      · exact hb
      · rintro rfl; exact hl.releasesAll d rfl j q b hj
  | handle =>
    rename_i c r
    have hkeep := p.registry.keeps_runHandle c r
    refine h.setRegistry (h.held.runHandle c r) hkeep.keyed (Registry.runHandle_activeRuns ..) fun d q b e => ?_
    have hlt := e.2
    rw [Registry.runHandle_active, if_neg (by omega)]

end

theorem createInv_init (projects : List Project) (runs : List Run) (capacity : Nat → Nat) :
    CreateInv (World.init projects runs capacity).protocol :=
  ⟨⟨nofun, nofun⟩, nofun, nofun, nofun⟩

/-! ## Calls that create and release -/

def Call.stored : Call → Option RunId
  | .createRun _ _ _ r (.releaseWriter _ _) | .createRun _ _ _ r (.releaseLock _ _) => some r
  | .finalizeRun _ _ _ .ensureWriteable | .finalizeRun _ _ _ .getRun => none
  | .finalizeRun _ r _ _ => some r
  | _ => none

/-- The statements of `create_run` and its clock do not fail; its lock file operation may. -/
def CreationStatements (s : World) : WorldAct → Prop
  | .go i env => (s.calls i).creates ≠ none → (s.calls i).acquires = none → env.fails = false
  | _ => True

/-- No shutdown of a client overlaps a `create_run` on it. -/
def ShutsApart (s : World) : WorldAct → Prop
  | .start _ request =>
    (∀ c, request.call.creates = some c → ∀ j, (s.calls j).shuts ≠ some c) ∧
      ∀ c, request.call.shuts = some c → ∀ j, (s.calls j).creates ≠ some c
  | _ => True

structure CreationInv (s : World) : Prop where
  protocol : CreateInv s.protocol
  connected : Connected s
  stored : ∀ i r, (s.calls i).stored = some r → statusIn s.runs r ≠ none
  inserting : ∀ i c r a, (s.calls i).thread = .inserting c r a → statusIn s.runs r = none
  apart : ∀ i j c, (s.calls i).creates = some c → (s.calls j).shuts ≠ some c
  unique : (s.runs.map Run.runId).Nodup

theorem stored_of_thread {k : Call} {c a : Nat} {r : RunId}
    (h : k.thread = .undoing c r a ∨ k.thread = .undone c r a ∨ k.thread = .closing c r a ∨
      k.thread = .released c r a) :
    k.stored = some r := by
  cases k.threaded with
  | idle e | shutdown e => simp [e] at h
  | create _ _ _ _ pc => cases pc <;> simp_all [Call.thread, Call.stored]
  | finalize _ _ _ pc => cases pc <;> simp_all [Call.thread, Call.stored]
  | log => simp [Call.thread] at h

theorem creates_of_stored {k : Call} {r : RunId} (h : k.stored = some r) :
    (∃ c, k.creates = some c) ∨ ∃ x, k.finalizes = some x := by
  cases k with
  | createRun => exact Or.inl ⟨_, rfl⟩
  | finalizeRun => exact Or.inr ⟨_, rfl⟩
  | _ => cases h

theorem createRun_of_inserts {k : Call} {c a : Nat} {r : RunId} (h : k.thread.inserts = some (c, r, a)) :
    k.creates = some c := by
  cases k.threaded with
  | idle e | shutdown e => rw [e] at h; cases h
  | create _ _ _ _ pc => cases pc <;> cases h <;> rfl
  | finalize _ _ _ pc => cases pc <;> cases h
  | log => cases h

theorem connects_of_inserting {k : Call} {c a : Nat} {r : RunId} (h : k.thread = .inserting c r a) :
    k.connects = some c := by
  cases k.threaded with
  | idle e | shutdown e => rw [e] at h; cases h
  | create _ _ _ _ pc => cases pc <;> cases h; rfl
  | finalize _ _ _ pc => cases pc <;> cases h
  | log => cases h

/-! ## Steps -/

section
variable {p q : Protocol} {i : Nat} {l : ProtocolAct}

theorem inserting_move (hm : ProtocolMove p i l q) {j c a : Nat} {r : RunId} (hj : q.threads j = .inserting c r a) :
    p.threads j = .inserting c r a ∧ (∀ d, l = .insert d r → j ≠ i) ∨ l = .check c r ∧ p.status r = none := by
  by_cases hji : j = i
  · subst hji
    have hself : ∀ {p' : Protocol} {th : Thread}, (p'.setThread j th).threads j = th := Function.update_self ..
    cases hm with
    | check _ hr => rw [hself] at hj; cases hj; exact Or.inr ⟨rfl, hr⟩
    | share _ hth | register _ _ hth =>
      rw [hself] at hj; subst hj
      generalize p.threads j = th at hth
      cases hth
    | stay | close | handle => exact Or.inl ⟨hj, by simp⟩
    | _ => rw [hself] at hj; cases hj
  · exact Or.inl ⟨by rw [← threads_move hm hji]; exact hj, fun _ _ => hji⟩

theorem inserting_of_insert {c : Nat} {r : RunId} (hm : ProtocolMove p i (.insert c r) q) :
    ∃ a, p.threads i = .inserting c r a := by
  cases hm with
  | insert hi => exact ⟨_, hi⟩

/-- A run about to be inserted is absent, as long as one thread at a time is about to insert it. -/
theorem inserting_absent (hm : ProtocolMove p i l q)
    (hone : ∀ i j c d r a b, p.threads i = .inserting c r a → p.threads j = .inserting d r b → i = j)
    (h : ∀ j c r a, p.threads j = .inserting c r a → p.status r = none) {j c a : Nat} {r : RunId}
    (hj : q.threads j = .inserting c r a) : q.status r = none := by
  rcases inserting_move hm hj with ⟨hp, hins⟩ | ⟨rfl, hr⟩
  · have hr := h j c r a hp
    rw [status_move hm ?_ ?_]
    · exact hr
    · rintro d rfl
      cases hm with
      | insert hi => exact hins d rfl (hone j i _ _ _ _ _ hp hi)
    · rintro d rfl
      cases hm with
      | mark _ hrun =>
        obtain ⟨run, hmem, hid, -⟩ := hrun
        unfold Protocol.status statusIn at hr
        simp only [Option.map_eq_none_iff, List.find?_eq_none, beq_iff_eq] at hr
        exact hr run hmem hid
  · rw [status_move hm (by simp) (by simp)]; exact hr

end

section
variable {s t : World} {i : Nat} {act : WorldAct} {env : Env}

/-- A call gives up a lock when it has found the run stored. -/
theorem stored_go (hc : CreationStatements s (.go i env)) (hs : s.step (.go i env) = some t) {r : RunId}
    (ht : (t.calls i).stored = some r) : (s.calls i).stored = some r ∨ statusIn s.runs r ≠ none := by
  have hself : ∀ {s' : World} {k : Call}, (s'.setCall i k).calls i = k := Function.update_self ..
  have hret : ∀ {s' : World} {result : Except EngineError (Option Run)},
    ((s'.returns i result).calls i).stored = none := by
    intro s' result
    rw [show (s'.returns i result).calls i = .returned result from hself]; rfl
  have hfound : ∀ {run : Run}, s.getRun r env.fails = .ok run → statusIn s.runs r ≠ none := by
    intro run hrun
    unfold statusIn
    rw [getRun_ok hrun]; simp
  obtain ⟨k', hcalls, hcont⟩ := calls_go hs
  simp only [World.step] at hs
  cases hk : s.calls i with
  | createRun c p name r' pc =>
    rw [hk] at hs
    cases pc with
    | runExists a =>
      have hf : env.fails = false := hc (by simp [hk, Call.creates]) (by simp [hk, Call.acquires])
      simp only [World.callStep, World.createRunStep, hf, Bool.false_eq_true, ite_false] at hs
      repeat' split at hs
      · cases hs
      · rename_i hany
        cases hs
        rw [hself] at ht; cases ht
        right
        obtain ⟨run, hmem, hid⟩ := List.any_eq_true.mp hany
        unfold statusIn
        simp only [ne_eq, Option.map_eq_none_iff, List.find?_eq_none, not_forall]
        exact ⟨run, hmem, by simpa using hid⟩
      · cases hs; rw [hself] at ht; cases ht
    | insertRun a =>
      have hf : env.fails = false := hc (by simp [hk, Call.creates]) (by simp [hk, Call.acquires])
      simp only [World.callStep, World.createRunStep, hf, Bool.false_eq_true, ite_false] at hs
      cases hs
      rw [hret] at ht; cases ht
    | releaseWriter a e => cases hs; rw [hself] at ht; exact Or.inl ht
    | _ =>
      simp only [World.callStep, World.createRunStep] at hs
      repeat' split at hs
      all_goals first
        | (cases hs; rw [hself] at ht; cases ht)
        | (cases hs; rw [hret] at ht; cases ht)
        | cases hs
  | finalizeRun c r' target pc =>
    rw [hk] at hs
    cases pc with
    | ensureWriteable =>
      simp only [World.callStep, World.finalizeRunStep] at hs
      split at hs
      · cases hs; rw [hret] at ht; cases ht
      · cases hs; rw [hself] at ht; cases ht
    | getRun =>
      simp only [World.callStep, World.finalizeRunStep] at hs
      repeat' split at hs
      · cases hs
      · rename_i hrun _
        cases hs
        rw [hself] at ht; cases ht
        exact Or.inr (hfound hrun)
      · cases hs; rw [hret] at ht; cases ht
      · cases hs; rw [hret] at ht; cases ht
    | drain a d =>
      left
      simp only [World.callStep, World.finalizeRunStep] at hs
      split at hs
      · cases hs; rw [hself] at ht; exact ht
      · cases hs; rw [hself] at ht; exact ht
      · obtain ⟨d', -, rfl⟩ := Option.map_eq_some_iff.mp hs
        rw [hself] at ht; exact ht
    | _ =>
      left
      simp only [World.callStep, World.finalizeRunStep] at hs
      repeat' split at hs
      all_goals first
        | (cases hs; rw [hself] at ht; exact ht)
        | (cases hs; rw [hret] at ht; cases ht)
        | cases hs
  | _ =>
    -- a call that does not give up locks does not become one that does
    exfalso
    rcases creates_of_stored ht with ⟨d, hd⟩ | ⟨x, hx⟩
    · have hb := hcont.creates d (by rw [← hd, hcalls, Function.update_self])
      rw [hk] at hb; cases hb
    · have hb := hcont.finalizes x (by rw [← hx, hcalls, Function.update_self])
      rw [hk] at hb; cases hb

theorem CreationInv.releases (h : CreationInv s) {l : ProtocolAct} {q : Protocol}
    (hm : ProtocolMove s.protocol i l q) :
    ReleasesStored s.protocol l := by
  refine ⟨fun c r hl => ?_, fun c hl j r a hj => ?_⟩
  · rcases hl with rfl | rfl | rfl | rfl
    · cases hm with
      | undoWriter hi => exact h.stored i r (stored_of_thread (Or.inl hi))
    · cases hm with
      | undoLock hi => exact h.stored i r (stored_of_thread (Or.inr (Or.inl hi)))
    · cases hm with
      | releaseLock hi => exact h.stored i r (stored_of_thread (Or.inr (Or.inr (Or.inl hi))))
    · cases hm with
      | releaseWriter hi => exact h.stored i r (stored_of_thread (Or.inr (Or.inr (Or.inr hi))))
  · subst hl
    cases hm with
    | releaseAll hi =>
      obtain ⟨pc, hk⟩ := thread_tearing hi
      exact h.apart j i c (createRun_of_inserts hj) (by rw [hk]; rfl)

theorem CreationInv.inserts_once (h : CreationInv s) {j c d a b : Nat} {r : RunId}
    (hi : (s.calls i).thread = .inserting c r a) (hj : (s.calls j).thread = .inserting d r b) : i = j := by
  have hr := h.inserting i c r a hi
  have ha := h.protocol.shared i c r a (by rw [show s.protocol.threads i = _ from hi]; rfl) hr
  have hb := h.protocol.shared j d r b (by rw [show s.protocol.threads j = _ from hj]; rfl) hr
  -- both hold the lock file of the run
  have hla := h.protocol.held.locked a (h.protocol.guarded c r a ha hr)
  have hlb := h.protocol.held.locked b (h.protocol.guarded d r b hb hr)
  rw [(h.protocol.held.keyed c r a ha).1.2] at hla
  rw [(h.protocol.held.keyed d r b hb).1.2, hla] at hlb
  cases hlb
  obtain ⟨rfl, -⟩ := h.protocol.held.unique ha hb
  -- and both keep the connection of the client
  have hci := (h.connected d i).mpr (connects_of_inserting hi)
  rw [(h.connected d j).mpr (connects_of_inserting hj)] at hci
  exact (Option.some.inj hci).symm

theorem CreationInv.step (h : CreationInv s) (hc : CreationStatements s act) (ha : ShutsApart s act)
    (hs : s.step act = some t) : CreationInv t := by
  obtain ⟨i, l, hm, hof⟩ := world_refines hs
  have hone : ∀ i j c d r a b, s.protocol.threads i = .inserting c r a → s.protocol.threads j = .inserting d r b →
      i = j := fun i j c d r a b hi hj => h.inserts_once hi hj
  refine ⟨h.protocol.move (h.releases hm) hm, h.connected.step hs, fun j r hj => ?_, fun j c r a hj => ?_,
    fun j k c hj hk => ?_, runs_nodup hm ?_ h.unique⟩
  · have hkeep : statusIn s.runs r ≠ none → statusIn t.runs r ≠ none := mt (status_back hm)
    apply hkeep
    rcases calls_step hs j with e | ⟨request, -, -, e⟩ | ⟨env, rfl, -⟩
    · rw [e] at hj; exact h.stored j r hj
    · rw [e] at hj
      cases request <;> cases hj
    · rcases stored_go hc hs hj with hj | hr
      · exact h.stored j r hj
      · exact hr
  · exact inserting_absent hm hone h.inserting hj
  · -- at most one of the two starts by the step
    rcases calls_key (fun _ _ hk => hk.creates) hs hj with hj | ⟨request, rfl, hj⟩
    · rcases calls_key (fun _ _ hk => hk.shuts) hs hk with hk | ⟨request, rfl, hk⟩
      · exact h.apart j k c hj hk
      · exact ha.2 c hk j hj
    · rcases calls_key (fun _ _ hk => hk.shuts) hs hk with hk | ⟨request', e, hk⟩
      · exact ha.1 c hj k hk
      · cases e
        cases request <;> cases hj; cases hk
  · rintro c r rfl
    obtain ⟨a, hi⟩ := inserting_of_insert hm
    exact h.inserting i c r a hi

end

theorem creationInv_init (projects : List Project) (runs : List Run) (capacity : Nat → Nat)
    (hn : (runs.map Run.runId).Nodup) : CreationInv (World.init projects runs capacity) :=
  ⟨createInv_init projects runs capacity, connected_init projects runs capacity, nofun, nofun, nofun, hn⟩

/-! ## Runs are created once -/

def createsRun (r : RunId) (s : World) : WorldAct → World → Bool
  | .go i _, t => (s.calls i).creates.isSome && (s.calls i).operates == some r && (t.calls i).isOk
  | _, _ => false

theorem createsRun_inserts {s t : World} {act : WorldAct} {r : RunId} (hs : s.step act = some t)
    (hm : createsRun r s act t = true) :
    ∃ i c a, (s.calls i).thread = .inserting c r a ∧ statusIn t.runs r ≠ none := by
  cases act with
  | go i env =>
    simp only [createsRun, Bool.and_eq_true, beq_iff_eq] at hm
    obtain ⟨⟨hcr, hop⟩, hok⟩ := hm
    have hself : ∀ {s' : World} {k : Call}, (s'.setCall i k).calls i = k := Function.update_self ..
    simp only [World.step] at hs
    cases hk : s.calls i with
    | createRun c p name r' pc =>
      rw [hk] at hs hop
      cases hop
      cases pc with
      | insertRun a =>
        refine ⟨i, c, a, by rw [hk]; rfl, ?_⟩
        simp only [World.callStep, World.createRunStep] at hs
        split at hs
        · cases hs; rw [hself] at hok; cases hok
        · cases hs
          show statusIn (s.runs ++ [_]) r ≠ none
          unfold statusIn
          simp
      | _ =>
        exfalso
        simp only [World.callStep, World.createRunStep] at hs
        repeat' split at hs
        all_goals first
          | (cases hs; rw [hself] at hok; cases hok)
          | (cases hs; rw [show (World.returns _ i _).calls i = _ from hself] at hok; cases hok)
          | cases hs
    | _ => rw [hk] at hcr; cases hcr
  | _ => cases hm

/-- No run id is stored twice, and at most one `create_run` for an id returns `Ok`. -/
theorem run_ids_unique {projects : List Project} {runs : List Run} {capacity : Nat → Nat}
    {acts : List WorldAct} {s : World} (h : exec World.step (World.init projects runs capacity) acts = some s)
    (hn : (runs.map Run.runId).Nodup)
    (hm : Meets World.step (fun s act => CreationStatements s act ∧ ShutsApart s act)
      (World.init projects runs capacity) acts) :
    (s.runs.map Run.runId).Nodup ∧
      ∀ r, tally World.step (createsRun r) (World.init projects runs capacity) acts ≤ 1 := by
  have hinit := creationInv_init projects runs capacity hn
  have hstep : ∀ s act t, CreationStatements s act ∧ ShutsApart s act → s.step act = some t → CreationInv s →
      CreationInv t := fun s act t hc hs hi => hi.step hc.1 hc.2 hs
  refine ⟨(exec_inv World.step hstep hm h hinit).unique, fun r => ?_⟩
  refine (tally_le_one World.step (B := fun s => statusIn s.runs r ≠ none) hstep ?_ ?_ hm hinit).1
  · intro s act t _ hs hi hmark
    obtain ⟨i, c, a, hins, hstored⟩ := createsRun_inserts hs hmark
    exact ⟨not_not.mpr (hi.inserting i c r a hins), hstored⟩
  · intro s act t hs hstored
    obtain ⟨i, l, hmove, -⟩ := world_refines hs
    exact mt (status_back hmove) hstored

/-- Two threads create one run on one client; the second finds it when it holds the lock. -/
def contendedRun : List WorldAct := List.flatten
  [[.start 0 (.createRun 0 "p" "n" "r"), .start 1 (.createRun 0 "p" "n" "r")], List.replicate 4 (.go 1 {}),
    List.replicate 6 (.go 0 {}), List.replicate 3 (.go 1 {})]

/-- No shutdown is requested and no operation fails. -/
def Undisturbed (_ : World) (act : WorldAct) : Prop :=
  match act with
  | .start _ request => request.call.shuts = none
  | .go _ env => env.fails = false
  | _ => True

instance (s : World) : ∀ act, Decidable (Undisturbed s act)
  | .start _ _ | .go _ _ => inferInstanceAs (Decidable (_ = _))
  | .runHandle _ _ | .work _ _ => isTrue trivial

theorem run_ids_unique_run : ∃ s, exec World.step (World.init [⟨"p", "p", 0⟩] [] fun _ => 1) contendedRun = some s ∧
    (s.calls 0).isOk = true ∧ s.calls 1 = .returned (.error (.runAlreadyExists "r")) ∧
    (s.runs.map Run.runId).Nodup := by
  obtain ⟨s, h, h0, h1⟩ : ∃ s, exec World.step (World.init [⟨"p", "p", 0⟩] [] fun _ => 1) contendedRun = some s ∧
      (s.calls 0).isOk = true ∧ s.calls 1 = .returned (.error (.runAlreadyExists "r")) := ⟨_, rfl, rfl, rfl⟩
  refine ⟨s, h, h0, h1, (run_ids_unique h (by simp) ?_).1⟩
  refine meets_of_inv World.step (C := Undisturbed) (I := fun s => ∀ i, (s.calls i).shuts = none) ?_ ?_ (by decide)
    fun _ => rfl
  · intro s act t hc hs hi j
    cases e : (t.calls j).shuts with
    | none => rfl
    | some c =>
      rcases calls_key (fun _ _ hk => hk.shuts) hs e with hj | ⟨request, rfl, hj⟩
      · rw [hi j] at hj; cases hj
      · rw [show request.call.shuts = none from hc] at hj; cases hj
  · intro s act hi hc
    cases act with
    | start i request =>
      refine ⟨trivial, fun c _ j => ?_, fun c e => ?_⟩
      · rw [hi j]; simp
      · rw [show request.call.shuts = none from hc] at e; cases e
    | go i env => exact ⟨fun _ _ => hc, trivial⟩
    | runHandle | work => exact ⟨trivial, trivial⟩

end Pulseon
