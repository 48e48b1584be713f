import Pulseon.AdmissionSound
import Pulseon.ClientSteps

/-!
# Who holds the lock of a run

An active run in a client's map that is not terminal has its guard, and the
guard keeps the lock file of its run. A handle that is not terminal is on the
active run in the map, unless its client is shutting down. Only a `create_run`
that undoes its `acquire_run_writer` can take an active run away from a handle:
it may share the active run with the call that made it.
-/

namespace Pulseon

/-! ## Active runs and their locks -/

def Registry.Keyed (g : Registry) (c : Nat) (r : RunId) (a : Nat) : Prop :=
  ((g.active a).client = c ∧ (g.active a).runId = r) ∧ a < g.fresh

/-- No active run made so far changes its key, its admission or its gate. -/
structure Registry.Keeps (g g' : Registry) : Prop where
  keyed : ∀ c r a, g.Keyed c r a → g'.Keyed c r a
  admission : ∀ c r a, g.Keyed c r a → (g'.active a).admission = (g.active a).admission
  gate : ∀ c r a, g.Keyed c r a → (g'.active a).gate = (g.active a).gate
  handles : ∀ run ∈ g.handles, run ∈ g'.handles

namespace Registry
variable (g : Registry)

theorem keeps_of_old {g' : Registry} (hfresh : g.fresh ≤ g'.fresh)
    (hold : ∀ b, b < g.fresh → g'.active b = g.active b) (hh : ∀ run ∈ g.handles, run ∈ g'.handles) :
    g.Keeps g' where
  keyed _ _ a hk := by
    refine ⟨?_, Nat.lt_of_lt_of_le hk.2 hfresh⟩
    rw [hold a hk.2]; exact hk.1
  admission _ _ a hk := by rw [hold a hk.2]
  gate _ _ a hk := by rw [hold a hk.2]
  handles := hh

theorem keeps_register (c : Nat) (r : RunId) : g.Keeps (g.register c r) := by
  refine g.keeps_of_old (Nat.le_succ _) (fun b hb => ?_) fun _ h => h
  rw [register_active, if_neg (by omega)]

theorem keeps_runHandle (c : Nat) (r : RunId) : g.Keeps (g.runHandle c r) := by
  refine g.keeps_of_old (g.runHandle_fresh c r) (fun b hb => ?_) fun _ h => ?_
  · rw [runHandle_active, if_neg (by omega)]
  · exact (runHandle_handles _ _ _).mpr (Or.inl h)

theorem keeps_releaseLock (a : Nat) : g.Keeps (g.releaseLock a) where
  keyed _ _ _ hk := by simp only [Keyed, releaseLock_client, releaseLock_runId, releaseLock_fresh]; exact hk
  admission _ _ _ _ := releaseLock_admission ..
  gate _ _ _ _ := releaseLock_gate ..
  handles _ h := by rw [releaseLock_handles]; exact h

theorem keeps_releaseRunWriter (c : Nat) (r : RunId) : g.Keeps (g.releaseRunWriter c r) where
  keyed _ _ _ hk := by
    simp only [Keyed, releaseRunWriter_client, releaseRunWriter_runId, releaseRunWriter_fresh]; exact hk
  admission _ _ _ _ := releaseRunWriter_admission ..
  gate _ _ _ _ := releaseRunWriter_gate ..
  handles _ h := by rw [releaseRunWriter_handles]; exact h

theorem keeps_releaseAll (c : Nat) : g.Keeps (g.releaseAllRunWriters c) where
  keyed _ _ _ hk := by simp only [Keyed, releaseAll_client, releaseAll_runId]; exact hk
  admission _ _ _ _ := releaseAll_admission ..
  gate _ _ _ _ := releaseAll_gate ..
  handles _ h := h

end Registry

/-- Every map entry was made for its key, and every guard holds its lock file. -/
structure Registry.Held (g : Registry) : Prop where
  keyed : ∀ c r a, g.activeRuns c r = some a → g.Keyed c r a
  locked : ∀ a, (g.active a).writerGuard = true → g.locks (lockFile (g.active a).runId) = some a

structure Registry.Sound (g : Registry) : Prop where
  keyed : ∀ c r a, g.activeRuns c r = some a → g.Keyed c r a
  handled : ∀ run ∈ g.handles, g.Keyed run.client run.runId run.activeRun
  locked : ∀ a, (g.active a).writerGuard = true → g.locks (lockFile (g.active a).runId) = some a
  guarded : ∀ c r a, g.activeRuns c r = some a → (g.active a).admission ≠ .terminal →
    (g.active a).writerGuard = true

namespace Registry
section
variable {g : Registry} (h : g.Held)
include h

theorem Held.unique {c d a : Nat} {r q : RunId} (ha : g.activeRuns c r = some a)
    (hb : g.activeRuns d q = some a) : d = c ∧ q = r := by
  obtain ⟨⟨h1, h2⟩, -⟩ := h.keyed c r a ha
  obtain ⟨⟨h3, h4⟩, -⟩ := h.keyed d q a hb
  exact ⟨h3.symm.trans h1, h4.symm.trans h2⟩

theorem Held.setAdmission (a : Nat) (x : RunAdmission) : (g.setAdmission a x).Held := by
  constructor <;> simp only [Keyed, setAdmission_client, setAdmission_runId, setAdmission_writerGuard]
  · exact h.keyed
  · exact h.locked

theorem Held.setGate (a : Nat) (x : Option Nat) : (g.setGate a x).Held := by
  constructor <;> simp only [Keyed, setGate_client, setGate_runId, setGate_writerGuard]
  · exact h.keyed
  · exact h.locked

theorem Held.register {c : Nat} {r : RunId} (hl : g.locks (lockFile r) = none) : (g.register c r).Held := by
  have hkey := (g.keeps_register c r).keyed
  constructor
  · intro d q b hb
    rw [register_activeRuns] at hb
    split at hb
    · rename_i e
      cases hb
      refine ⟨?_, Nat.lt_succ_self _⟩
      rw [register_active, if_pos rfl]
      exact ⟨e.1.symm, e.2.symm⟩
    · exact hkey d q b (h.keyed d q b hb)
  · intro b hb
    rw [register_locks]
    rw [register_active] at hb ⊢
    split at hb
    · rename_i e; rw [if_pos e, if_pos rfl, e]
    · rename_i e
      have hlb := h.locked b hb
      rw [if_neg e, if_neg]
      · exact hlb
      · -- the lock was free
        intro ef; rw [ef, hl] at hlb; cases hlb

theorem Held.releaseLock (a : Nat) : (g.releaseLock a).Held := by
  constructor
    <;> simp only [Keyed, releaseLock_activeRuns, releaseLock_client, releaseLock_runId, releaseLock_fresh]
  · exact h.keyed
  · intro b hb
    rw [releaseLock_active] at hb
    split at hb
    · cases hb
    · rename_i hne
      rw [releaseLock_locks, if_neg]
      · exact h.locked b hb
      · -- the two would hold the same lock
        rintro ⟨hg, ef⟩
        have hla := h.locked a hg
        rw [← ef, h.locked b hb] at hla
        exact hne (Option.some.inj hla)

theorem Held.unregister (c : Nat) (r : RunId) : (g.setActiveRun c r none).Held := by
  refine ⟨fun d q b hb => ?_, h.locked⟩
  rw [setActiveRun_activeRuns] at hb
  split at hb
  · cases hb
  · exact h.keyed d q b hb

theorem Held.releaseRunWriter (c : Nat) (r : RunId) : (g.releaseRunWriter c r).Held := by
  unfold Registry.releaseRunWriter
  split
  · exact (h.unregister c r).releaseLock _
  · exact h

theorem Held.releaseAll (c : Nat) : (g.releaseAllRunWriters c).Held := by
  constructor
  · intro d q b hb
    unfold Keyed
    rw [releaseAll_client, releaseAll_runId]
    rw [releaseAll_activeRuns] at hb
    split at hb
    · cases hb
    · exact h.keyed d q b hb
  · intro b hb
    rw [releaseAll_runId]
    rw [releaseAll_active] at hb
    split at hb
    · cases hb
    · rename_i hreg
      show (g.locks _).filter _ = some b
      rw [h.locked b hb, Option.filter_some_pos (by simpa using hreg)]

theorem Held.runHandle (c : Nat) (r : RunId) : (g.runHandle c r).Held := by
  have hkey := (g.keeps_runHandle c r).keyed
  constructor
  · intro d q b hb
    rw [runHandle_activeRuns] at hb
    exact hkey d q b (h.keyed d q b hb)
  · intro b hb
    rw [runHandle_locks]
    rw [runHandle_active] at hb ⊢
    split at hb
    · cases hb
    · rename_i e; rw [if_neg e]; exact h.locked b hb

end

section
variable {g : Registry} (h : g.Sound)
include h

theorem Sound.held : g.Held := ⟨h.keyed, h.locked⟩

theorem Sound.holds {c a : Nat} {r : RunId} (ha : g.activeRuns c r = some a)
    (hn : (g.active a).admission ≠ .terminal) : g.locks (lockFile r) = some a := by
  have hl := h.locked a (h.guarded c r a ha hn)
  rwa [(h.keyed c r a ha).1.2] at hl

theorem Sound.setAdmission {a : Nat} {x : RunAdmission}
    (hx : x ≠ .terminal → (g.active a).admission ≠ .terminal) : (g.setAdmission a x).Sound := by
  refine ⟨(h.held.setAdmission a x).keyed, ?_, (h.held.setAdmission a x).locked, ?_⟩
  · intro run hrun
    simp only [Keyed, setAdmission_client, setAdmission_runId]
    exact h.handled run hrun
  · intro c r b hb hn
    rw [setAdmission_writerGuard]
    refine h.guarded c r b hb ?_
    rw [setAdmission_active] at hn
    split at hn
    · rename_i e; rw [e]; exact hx hn
    · exact hn

theorem Sound.setGate (a : Nat) (x : Option Nat) : (g.setGate a x).Sound := by
  refine ⟨(h.held.setGate a x).keyed, ?_, (h.held.setGate a x).locked, ?_⟩ <;>
    simp only [Keyed, setGate_client, setGate_runId, setGate_writerGuard, setGate_admission]
  · exact h.handled
  · exact h.guarded

theorem Sound.register {c : Nat} {r : RunId} (hl : g.locks (lockFile r) = none) : (g.register c r).Sound := by
  refine ⟨(h.held.register hl).keyed, ?_, (h.held.register hl).locked, ?_⟩
  · intro run hrun
    exact (g.keeps_register c r).keyed _ _ _ (h.handled run hrun)
  · intro d q b hb hn
    rw [register_activeRuns] at hb
    split at hb
    · cases hb; rw [register_active, if_pos rfl]
    · have hlt := (h.keyed d q b hb).2
      rw [register_active, if_neg (by omega)] at hn ⊢
      exact h.guarded d q b hb hn

theorem Sound.releaseLock {a : Nat}
    (ha : (g.active a).admission = .terminal ∨ ∀ c r, g.activeRuns c r ≠ some a) :
    (g.releaseLock a).Sound := by
  refine ⟨(h.held.releaseLock a).keyed, ?_, (h.held.releaseLock a).locked, ?_⟩ <;>
    simp only [Keyed, releaseLock_activeRuns, releaseLock_client, releaseLock_runId, releaseLock_fresh,
      releaseLock_handles, releaseLock_admission]
  · exact h.handled
  · intro c r b hb hn
    rw [releaseLock_active, if_neg]
    · exact h.guarded c r b hb hn
    · rintro rfl
      rcases ha with ha | ha
      · exact hn ha
      · exact ha c r hb

theorem Sound.unregister (c : Nat) (r : RunId) : (g.setActiveRun c r none).Sound := by
  refine ⟨(h.held.unregister c r).keyed, h.handled, h.locked, fun d q b hb => h.guarded d q b ?_⟩
  rw [setActiveRun_activeRuns] at hb
  split at hb
  · cases hb
  · exact hb

theorem Sound.releaseRunWriter (c : Nat) (r : RunId) : (g.releaseRunWriter c r).Sound := by
  unfold Registry.releaseRunWriter
  split
  · rename_i a ha
    refine (h.unregister c r).releaseLock (Or.inr fun d q hd => ?_)
    rw [setActiveRun_activeRuns] at hd
    split at hd
    · cases hd
    · rename_i hne; exact hne (h.held.unique ha hd)
  · exact h

theorem Sound.releaseAll (c : Nat) : (g.releaseAllRunWriters c).Sound := by
  refine ⟨(h.held.releaseAll c).keyed, ?_, (h.held.releaseAll c).locked, ?_⟩
  · intro run hrun
    unfold Keyed
    rw [releaseAll_client, releaseAll_runId]
    exact h.handled run hrun
  · intro d q b hb hn
    rw [releaseAll_activeRuns] at hb
    split at hb
    · cases hb
    · rename_i hne
      rw [releaseAll_admission] at hn
      rw [releaseAll_active, if_neg]
      · exact h.guarded d q b hb hn
      · -- the map of another client keeps its entries
        intro hreg
        simp only [registered, Bool.and_eq_true, beq_iff_eq] at hreg
        exact hne ((h.keyed d q b hb).1.1.symm.trans hreg.1)

theorem Sound.runHandle (c : Nat) (r : RunId) : (g.runHandle c r).Sound := by
  have hkey := (g.keeps_runHandle c r).keyed
  refine ⟨(h.held.runHandle c r).keyed, ?_, (h.held.runHandle c r).locked, ?_⟩
  · intro run hrun
    rcases (runHandle_handles _ _ _).mp hrun with hr | ⟨a, rfl, ha | ⟨ha, rfl⟩⟩
    · exact hkey _ _ _ (h.handled run hr)
    · exact hkey _ _ _ (h.keyed c r a ha)
    · refine ⟨?_, ?_⟩
      · dsimp only
        rw [runHandle_active, if_pos ⟨ha, rfl⟩]; exact ⟨rfl, rfl⟩
      · dsimp only
        unfold Registry.runHandle
        rw [ha]; exact Nat.lt_succ_self _
  · intro d q b hb hn
    rw [runHandle_activeRuns] at hb
    have hlt := (h.keyed d q b hb).2
    rw [runHandle_active, if_neg (by omega)] at hn ⊢
    exact h.guarded d q b hb hn

end
end Registry

/-! ## Threads -/

/-- The active run is the one in the map, as long as the client has its sender. -/
def Registry.Attached (g : Registry) (torn : Nat → Bool) (c : Nat) (r : RunId) (a : Nat) : Prop :=
  torn c = true ∨ g.activeRuns c r = some a

structure Thread.Sound (g : Registry) (torn : Nat → Bool) (i : Nat) (th : Thread) : Prop where
  keyed : ∀ c r a, th.cell = some (c, r, a) → g.Keyed c r a
  held : ∀ c r a, th.holds = some (c, r, a) → (g.active a).admission ≠ .terminal ∧ g.Attached torn c r a
  ended : ∀ c r a, th.ends = some (c, r, a) → (g.active a).admission = .terminal ∧ g.Attached torn c r a
  undone : ∀ c r a, th = .undone c r a → ∀ d q, g.activeRuns d q ≠ some a
  logging : ∀ run, th = .logging run → run ∈ g.handles ∧
    (g.active run.activeRun).gate = some i ∧ (g.active run.activeRun).admission = .opened
  tearing : ∀ c, th = .tearing c → torn c = true

theorem Thread.cell_of_holds {th : Thread} {x : Nat × RunId × Nat} (h : th.holds = some x) :
    th.cell = some x := by
  cases th <;> first | exact h | cases h

theorem Thread.cell_of_ends {th : Thread} {x : Nat × RunId × Nat} (h : th.ends = some x) :
    th.cell = some x := by
  cases th <;> first | exact h | cases h

theorem Thread.sound_free {g : Registry} {torn : Nat → Bool} {i : Nat} {th : Thread} (hc : th.cell = none)
    (hl : ∀ run, th ≠ .logging run) (ht : ∀ c, th ≠ .tearing c) : th.Sound g torn i where
  keyed _ _ _ e := by rw [hc] at e; cases e
  held _ _ _ e := by have := cell_of_holds e; rw [hc] at this; cases this
  ended _ _ _ e := by have := cell_of_ends e; rw [hc] at this; cases this
  undone _ _ _ e := by rw [e] at hc; cases hc
  logging run e := absurd e (hl run)
  tearing c e := absurd e (ht c)

section
variable {g g' : Registry} {torn torn' : Nat → Bool} {i : Nat} {th : Thread} (h : th.Sound g torn i)
include h

theorem Thread.Sound.keep (hg : g.Sound) (hk : g.Keeps g') (ht : ∀ c, torn c = true → torn' c = true)
    (ha : ∀ c r a, (th.holds = some (c, r, a) ∨ th.ends = some (c, r, a)) → g.activeRuns c r = some a →
      g'.Attached torn' c r a)
    (hu : ∀ c r a, th = .undone c r a → ∀ d q, g'.activeRuns d q ≠ some a) : th.Sound g' torn' i where
  keyed c r a e := hk.keyed c r a (h.keyed c r a e)
  held c r a e := by
    obtain ⟨h1, h2⟩ := h.held c r a e
    rw [hk.admission c r a (h.keyed c r a (Thread.cell_of_holds e))]
    exact ⟨h1, h2.elim (fun h2 => Or.inl (ht c h2)) (ha c r a (Or.inl e))⟩
  ended c r a e := by
    obtain ⟨h1, h2⟩ := h.ended c r a e
    rw [hk.admission c r a (h.keyed c r a (Thread.cell_of_ends e))]
    exact ⟨h1, h2.elim (fun h2 => Or.inl (ht c h2)) (ha c r a (Or.inr e))⟩
  undone := hu
  logging run e := by
    obtain ⟨h1, h2, h3⟩ := h.logging run e
    rw [hk.admission _ _ _ (hg.handled run h1), hk.gate _ _ _ (hg.handled run h1)]
    exact ⟨hk.handles run h1, h2, h3⟩
  tearing c e := ht c (h.tearing c e)

/-- The map only loses entries, and none that the thread finishes. -/
theorem Thread.Sound.shrink (hg : g.Sound) (hk : g.Keeps g')
    (hmap : ∀ d q a, g'.activeRuns d q = some a → g.activeRuns d q = some a)
    (ha : ∀ c r a, (th.holds = some (c, r, a) ∨ th.ends = some (c, r, a)) → g.activeRuns c r = some a →
      g'.Attached torn c r a) : th.Sound g' torn i :=
  h.keep hg hk (fun _ e => e) ha fun c r a e d q hd => h.undone c r a e d q (hmap d q a hd)

theorem Thread.Sound.setAdmission {a : Nat} {x : RunAdmission}
    (hh : ∀ c r, th.holds = some (c, r, a) → x ≠ .terminal)
    (he : ∀ c r, th.ends = some (c, r, a) → x = .terminal)
    (hl : ∀ run, th = .logging run → run.activeRun ≠ a) : th.Sound (g.setAdmission a x) torn i where
  keyed c r b e := by
    simp only [Registry.Keyed, Registry.setAdmission_client, Registry.setAdmission_runId]
    exact h.keyed c r b e
  held c r b e := by
    obtain ⟨h1, h2⟩ := h.held c r b e
    rw [Registry.setAdmission_active]
    split
    · rename_i hb; subst hb; exact ⟨hh c r e, h2⟩
    · exact ⟨h1, h2⟩
  ended c r b e := by
    obtain ⟨h1, h2⟩ := h.ended c r b e
    rw [Registry.setAdmission_active]
    split
    · rename_i hb; subst hb; exact ⟨he c r e, h2⟩
    · exact ⟨h1, h2⟩
  undone := h.undone
  logging run e := by
    rw [Registry.setAdmission_active, if_neg (hl run e)]
    exact h.logging run e
  tearing := h.tearing

theorem Thread.Sound.setGate {a : Nat} {x : Option Nat} (hl : ∀ run, th = .logging run → run.activeRun ≠ a) :
    th.Sound (g.setGate a x) torn i where
  keyed c r b e := by
    simp only [Registry.Keyed, Registry.setGate_client, Registry.setGate_runId]
    exact h.keyed c r b e
  held c r b e := by rw [Registry.setGate_admission]; exact h.held c r b e
  ended c r b e := by rw [Registry.setGate_admission]; exact h.ended c r b e
  undone := h.undone
  logging run e := by
    rw [Registry.setGate_active, if_neg (hl run e)]
    exact h.logging run e
  tearing := h.tearing

end

/-! ## The invariant -/

structure LockInv (p : Protocol) : Prop where
  registry : p.registry.Sound
  threads : ∀ i, (p.threads i).Sound p.registry p.torn i
  attached : ∀ run ∈ p.registry.handles, (p.registry.active run.activeRun).admission ≠ .terminal →
    p.registry.Attached p.torn run.client run.runId run.activeRun
  -- a terminal active run leaves the map with the finalizer that made it terminal
  dead : ∀ c r a, p.registry.activeRuns c r = some a → (p.registry.active a).admission = .terminal →
    ∃ i, (p.threads i).ends = some (c, r, a)
  unique : ∀ i j c r, (p.threads i).finalizes = some (c, r) → (p.threads j).finalizes = some (c, r) → i = j

/-- At most one finalizer is in flight for a run, and a `create_run` that undoes
its `acquire_run_writer` finds nothing in the map or an active run that no
handle and no finalizer has. -/
structure UndoesAlone (p : Protocol) (l : ProtocolAct) : Prop where
  begins : ∀ c r, l = .begin c r → ∀ j, (p.threads j).finalizes ≠ some (c, r)
  undoes : ∀ c r a, l = .undoWriter c r → p.registry.activeRuns c r = some a →
    (∀ run ∈ p.registry.handles, run.activeRun ≠ a) ∧
      ∀ j, (p.threads j).holds ≠ some (c, r, a) ∧ (p.threads j).ends ≠ some (c, r, a)

theorem Thread.finalizes_of_holds {th : Thread} {c a : Nat} {r : RunId} (h : th.holds = some (c, r, a)) :
    th.finalizes = some (c, r) := by
  cases th <;> cases h <;> rfl

theorem Thread.finalizes_of_ends {th : Thread} {c a : Nat} {r : RunId} (h : th.ends = some (c, r, a)) :
    th.finalizes = some (c, r) := by
  cases th <;> cases h <;> rfl

section
variable {p : Protocol} (h : LockInv p) {i : Nat} {th : Thread}
include h

theorem LockInv.build (g : Registry) (runs : List Run) (torn : Nat → Bool) (hreg : g.Sound)
    (hi : th.Sound g torn i) (hothers : ∀ j, j ≠ i → (p.threads j).Sound g torn j)
    (hatt : ∀ run ∈ g.handles, (g.active run.activeRun).admission ≠ .terminal →
      g.Attached torn run.client run.runId run.activeRun)
    (hdead : ∀ c r a, g.activeRuns c r = some a → (g.active a).admission = .terminal →
      th.ends = some (c, r, a) ∨ ∃ j, j ≠ i ∧ (p.threads j).ends = some (c, r, a))
    (hu : ∀ c r, th.finalizes = some (c, r) → (p.threads i).finalizes = some (c, r) ∨
      ∀ j, (p.threads j).finalizes ≠ some (c, r)) :
    LockInv { registry := g, runs := runs, torn := torn, threads := Function.update p.threads i th } := by
  have hself : Function.update p.threads i th i = th := Function.update_self ..
  have hother : ∀ j, j ≠ i → Function.update p.threads i th j = p.threads j := fun j hj =>
    Function.update_of_ne hj ..
  refine ⟨hreg, ?_, hatt, ?_, ?_⟩
  · intro j
    by_cases hj : j = i
    · subst hj; dsimp only; rw [hself]; exact hi
    · dsimp only; rw [hother j hj]; exact hothers j hj
  · intro c r a ha ht
    rcases hdead c r a ha ht with he | ⟨j, hj, he⟩
    · exact ⟨i, by dsimp only; rw [hself]; exact he⟩
    · exact ⟨j, by dsimp only; rw [hother j hj]; exact he⟩
  · -- two finalizers of one run, one of which is the thread that moved
    have hone : ∀ j c r, j ≠ i → th.finalizes = some (c, r) → (p.threads j).finalizes = some (c, r) →
        False := by
      intro j c r hj he hej
      rcases hu c r he with hi' | hn
      · exact hj (h.unique j i c r hej hi')
      · exact hn j hej
    intro j k c r hj hk
    dsimp only at hj hk
    by_cases hji : j = i
    · by_cases hki : k = i
      · rw [hji, hki]
      · rw [hji, hself] at hj; rw [hother k hki] at hk
        exact absurd hk (fun hk => hone k c r hki hj hk)
    · by_cases hki : k = i
      · rw [hki, hself] at hk; rw [hother j hji] at hj
        exact absurd hj (fun hj => hone j c r hji hk hj)
      · rw [hother j hji] at hj; rw [hother k hki] at hk
        exact h.unique j k c r hj hk

/-- A terminal active run of the map belongs to another thread than one that has finished none. -/
theorem LockInv.dead_elsewhere (he : (p.threads i).ends = none) {c a : Nat} {r : RunId}
    (ha : p.registry.activeRuns c r = some a) (ht : (p.registry.active a).admission = .terminal) :
    ∃ j, j ≠ i ∧ (p.threads j).ends = some (c, r, a) := by
  obtain ⟨j, hj⟩ := h.dead c r a ha ht
  refine ⟨j, ?_, hj⟩
  rintro rfl
  rw [he] at hj; cases hj

theorem LockInv.setThread (hi : th.Sound p.registry p.torn i) (he : (p.threads i).ends = none)
    (hu : ∀ c r, th.finalizes = some (c, r) → (p.threads i).finalizes = some (c, r) ∨
      ∀ j, (p.threads j).finalizes ≠ some (c, r)) : LockInv (p.setThread i th) :=
  h.build p.registry p.runs p.torn h.registry hi (fun j _ => h.threads j) h.attached
    (fun _ _ _ ha ht => Or.inr (h.dead_elsewhere he ha ht)) hu

theorem LockInv.setRuns (runs : List Run) : LockInv { p with runs := runs } :=
  ⟨h.registry, h.threads, h.attached, h.dead, h.unique⟩

theorem LockInv.fresh_finalizer {c a : Nat} {r : RunId} (hf : (p.threads i).finalizes = some (c, r))
    (he : (p.threads i).ends = none) (ha : p.registry.activeRuns c r = some a) :
    (p.registry.active a).admission ≠ .terminal := by
  intro ht
  obtain ⟨j, hj, hej⟩ := h.dead_elsewhere he ha ht
  exact hj (h.unique j i c r (Thread.finalizes_of_ends hej) hf)

theorem LockInv.one_finalizer {j c d a : Nat} {r q : RunId} (hi : (p.threads i).cell = some (c, r, a))
    (hf : (p.threads i).finalizes = some (c, r)) (hj : (p.threads j).cell = some (d, q, a))
    (hfj : (p.threads j).finalizes = some (d, q)) : j = i := by
  obtain ⟨⟨h1, h2⟩, -⟩ := (h.threads i).keyed c r a hi
  obtain ⟨⟨h3, h4⟩, -⟩ := (h.threads j).keyed d q a hj
  rw [h1] at h3; rw [h2] at h4
  subst h3 h4
  exact h.unique j i _ _ hfj hf

/-- With the gate free, a finalizer that has the active run has it to itself. -/
theorem LockInv.alone {c a : Nat} {r : RunId} (hi : (p.threads i).cell = some (c, r, a))
    (hf : (p.threads i).finalizes = some (c, r)) (hg : (p.registry.active a).gate = none) :
    (∀ j, j ≠ i → ∀ d q, (p.threads j).cell = some (d, q, a) → (p.threads j).finalizes ≠ some (d, q)) ∧
      ∀ j run, p.threads j = .logging run → run.activeRun ≠ a := by
  refine ⟨fun j hj d q hc hfj => hj (h.one_finalizer hi hf hc hfj), ?_⟩
  rintro j run e rfl
  have := ((h.threads j).logging run e).2.1
  rw [hg] at this; cases this

/-! ### Operations -/

theorem LockInv.register {c : Nat} {r : RunId} (ha : p.registry.activeRuns c r = none)
    (hl : p.registry.locks (lockFile r) = none) (hth : (p.threads i).Acquires c r p.registry.fresh th) :
    LockInv ((p.setRegistry (p.registry.register c r)).setThread i th) := by
  have hsound := h.registry.register (c := c) hl
  have hkeep := p.registry.keeps_register c r
  have hnew : (p.registry.register c r).activeRuns c r = some p.registry.fresh := by
    rw [Registry.register_activeRuns, if_pos ⟨rfl, rfl⟩]
  have hopen : ((p.registry.register c r).active p.registry.fresh).admission = .opened := by
    rw [Registry.register_active, if_pos rfl]
  have hold : ∀ d q b, p.registry.activeRuns d q = some b →
      (p.registry.register c r).activeRuns d q = some b := by
    intro d q b hb
    rw [Registry.register_activeRuns, if_neg]
    · exact hb
    · rintro ⟨rfl, rfl⟩; rw [ha] at hb; cases hb
  have hends : (p.threads i).ends = none := by
    generalize p.threads i = ti at hth
    cases hth <;> rfl
  refine h.build (p.registry.register c r) p.runs p.torn hsound ?_ (fun j _ => ?_) ?_ ?_ ?_
  · generalize hf : p.registry.fresh = f at hth hnew hopen
    generalize p.threads i = ti at hth
    cases hth with
    | create =>
      refine ⟨fun _ _ _ e => ?_, nofun, nofun, nofun, nofun, nofun⟩
      cases e; exact hsound.keyed c r f hnew
    | finalize =>
      refine ⟨fun _ _ _ e => ?_, fun _ _ _ e => ?_, nofun, nofun, nofun, nofun⟩
      · cases e; exact hsound.keyed c r f hnew
      · cases e; exact ⟨(by rw [hopen]; nofun), Or.inr hnew⟩
    | resume => exact Thread.sound_free rfl nofun nofun
  · refine (h.threads j).keep h.registry hkeep (fun _ e => e) (fun d q b _ hb => Or.inr (hold d q b hb)) ?_
    intro d q b e d' q' hb
    rw [Registry.register_activeRuns] at hb
    split at hb
    · -- the new active run is in no thread's hand
      have := ((h.threads j).keyed d q b (by rw [e]; rfl)).2
      cases hb; exact absurd this (Nat.lt_irrefl _)
    · exact (h.threads j).undone d q b e d' q' hb
  · intro run hrun hn
    rw [hkeep.admission _ _ _ (h.registry.handled run hrun)] at hn
    exact (h.attached run hrun hn).imp id (hold _ _ _)
  · intro d q b hb ht
    rw [Registry.register_activeRuns] at hb
    split at hb
    · cases hb; rw [hopen] at ht; cases ht
    · rw [hkeep.admission _ _ _ (h.registry.keyed d q b hb)] at ht
      exact Or.inr (h.dead_elsewhere hends hb ht)
  · intro d q e
    generalize p.threads i = ti at hth
    cases hth with
    | create | resume => cases e
    | finalize => exact Or.inl e

/-- A finalizer that has the gate to itself and lets the run live. -/
theorem LockInv.readmit {c a : Nat} {r : RunId} {x : RunAdmission} (hi : p.threads i = .using c r a)
    (hg : (p.registry.active a).gate = none) (hx : x ≠ .terminal) (hth : th = .idle ∨ th = .using c r a) :
    LockInv ((p.setRegistry (p.registry.setAdmission a x)).setThread i th) := by
  have hti := h.threads i
  rw [hi] at hti
  obtain ⟨hlive, hatt⟩ := hti.held c r a rfl
  obtain ⟨⟨hcl, hrid⟩, -⟩ := hti.keyed c r a rfl
  obtain ⟨hcell, hlog⟩ := h.alone (c := c) (r := r) (by rw [hi]; rfl) (by rw [hi]; rfl) hg
  refine h.build (p.registry.setAdmission a x) p.runs p.torn (h.registry.setAdmission fun _ => hlive) ?_
    (fun j hj => ?_) ?_ ?_ ?_
  · rcases hth with rfl | rfl
    · exact Thread.sound_free rfl nofun nofun
    · exact hti.setAdmission (fun _ _ _ => hx) nofun nofun
  · refine (h.threads j).setAdmission (fun _ _ _ => hx) (fun d q e => ?_) (hlog j)
    exact absurd (Thread.finalizes_of_ends e) (hcell j hj d q (Thread.cell_of_ends e))
  · intro run hrun hn
    by_cases he : run.activeRun = a
    · obtain ⟨⟨h1, h2⟩, -⟩ := h.registry.handled run hrun
      rw [he] at h1 h2 ⊢
      rw [hcl] at h1; rw [hrid] at h2
      rw [← h1, ← h2]; exact hatt
    · rw [Registry.setAdmission_active, if_neg he] at hn
      exact h.attached run hrun hn
  · intro d q b hb ht
    rw [Registry.setAdmission_active] at ht
    split at ht
    · exact absurd ht hx
    · exact Or.inr (h.dead_elsewhere (by rw [hi]; rfl) hb ht)
  · rintro d q e
    rcases hth with rfl | rfl
    · cases e
    · exact Or.inl (by rw [hi]; exact e)

theorem LockInv.markTerminal {c a : Nat} {r : RunId} (hi : p.threads i = .marked c r a)
    (hg : (p.registry.active a).gate = none) :
    LockInv ((p.setRegistry (p.registry.markTerminal c r a)).setThread i (.closing c r a)) := by
  have hti := h.threads i
  rw [hi] at hti
  obtain ⟨hlive, hatt⟩ := hti.held c r a rfl
  obtain ⟨⟨hcl, hrid⟩, -⟩ := hti.keyed c r a rfl
  obtain ⟨hcell, hlog⟩ := h.alone (c := c) (r := r) (by rw [hi]; rfl) (by rw [hi]; rfl) hg
  have hsound := h.registry.setAdmission (a := a) (x := .terminal) fun e => absurd rfl e
  have hthreads : ∀ j, j ≠ i → (p.threads j).Sound (p.registry.setAdmission a .terminal) p.torn j := by
    intro j hj
    refine (h.threads j).setAdmission (fun d q e => ?_) (fun _ _ _ => rfl) (hlog j)
    exact absurd (Thread.finalizes_of_holds e) (hcell j hj d q (Thread.cell_of_holds e))
  have hself : Thread.Sound (p.registry.setAdmission a .terminal) p.torn i (.closing c r a) := by
    refine ⟨fun _ _ _ e => ?_, nofun, fun _ _ _ e => ?_, nofun, nofun, nofun⟩
    · cases e
      simp only [Registry.Keyed, Registry.setAdmission_client, Registry.setAdmission_runId]
      exact hti.keyed c r a rfl
    · cases e
      refine ⟨?_, hatt⟩
      rw [Registry.setAdmission_active, if_pos rfl]
  refine h.build (p.registry.markTerminal c r a) p.runs p.torn
    ⟨hsound.keyed, hsound.handled, hsound.locked, hsound.guarded⟩
    ⟨hself.keyed, hself.held, hself.ended, hself.undone, hself.logging, hself.tearing⟩
    (fun j hj => ?_) ?_ ?_ ?_
  · have := hthreads j hj
    exact ⟨this.keyed, this.held, this.ended, this.undone, this.logging, this.tearing⟩
  · intro run hrun hn
    change ((p.registry.setAdmission a .terminal).active run.activeRun).admission ≠ _ at hn
    rw [Registry.setAdmission_active] at hn
    split at hn
    · exact absurd rfl hn
    · exact h.attached run hrun hn
  · intro d q b hb ht
    by_cases hba : b = a
    · subst hba
      obtain ⟨⟨h1, h2⟩, -⟩ := h.registry.keyed d q b hb
      rw [hcl] at h1; rw [hrid] at h2
      subst h1 h2
      exact Or.inl rfl
    · change ((p.registry.setAdmission a .terminal).active b).admission = _ at ht
      rw [Registry.setAdmission_active, if_neg hba] at ht
      exact Or.inr (h.dead_elsewhere (by rw [hi]; rfl) hb ht)
  · intro d q e
    exact Or.inl (by rw [hi]; exact e)

theorem LockInv.releaseLock {a : Nat}
    (ha : (p.registry.active a).admission = .terminal ∨ ∀ c r, p.registry.activeRuns c r ≠ some a)
    (hi : th.Sound p.registry p.torn i) (he : th.ends = (p.threads i).ends)
    (hu : ∀ c r, th.finalizes = some (c, r) → (p.threads i).finalizes = some (c, r)) :
    LockInv ((p.setRegistry (p.registry.releaseLock a)).setThread i th) := by
  have hkeep := p.registry.keeps_releaseLock a
  have hmap : ∀ c r b, (p.registry.releaseLock a).activeRuns c r = some b ↔
      p.registry.activeRuns c r = some b := fun c r b => by rw [Registry.releaseLock_activeRuns]
  have hsame : ∀ {j th}, Thread.Sound p.registry p.torn j th →
      Thread.Sound (p.registry.releaseLock a) p.torn j th := fun hj =>
    hj.shrink h.registry hkeep (fun d q b hb => (hmap d q b).mp hb)
      fun d q b _ hb => Or.inr ((hmap d q b).mpr hb)
  refine h.build (p.registry.releaseLock a) p.runs p.torn (h.registry.releaseLock ha) (hsame hi)
    (fun j _ => hsame (h.threads j)) ?_ ?_ (fun c r e => Or.inl (hu c r e))
  · intro run hrun hn
    rw [Registry.releaseLock_handles] at hrun
    rw [Registry.releaseLock_admission] at hn
    exact (h.attached run hrun hn).imp id (hmap _ _ _).mpr
  · intro c r b hb ht
    rw [Registry.releaseLock_admission] at ht
    obtain ⟨j, hj⟩ := h.dead c r b ((hmap c r b).mp hb) ht
    by_cases hji : j = i
    · subst hji; exact Or.inl (he.trans hj)
    · exact Or.inr ⟨j, hji, hj⟩

/-- `release_run_writer` on a map entry that no handle and no other finalizer
relies on, or on a client that is shutting down. -/
theorem LockInv.releaseRunWriter {c : Nat} {r : RunId}
    (hh : ∀ run ∈ p.registry.handles, p.registry.activeRuns c r = some run.activeRun →
      (p.registry.active run.activeRun).admission ≠ .terminal → p.torn c = true)
    (ht : ∀ j, j ≠ i → ∀ a, (p.threads j).holds = some (c, r, a) ∨ (p.threads j).ends = some (c, r, a) →
      p.registry.activeRuns c r = some a → p.torn c = true)
    (hi : th.Sound (p.registry.releaseRunWriter c r) p.torn i)
    (he : ∀ d q a, (p.threads i).ends = some (d, q, a) → d = c ∧ q = r) (hth : th.finalizes = none) :
    LockInv ((p.setRegistry (p.registry.releaseRunWriter c r)).setThread i th) := by
  have hkeep := p.registry.keeps_releaseRunWriter c r
  have hmap : ∀ d q b, (p.registry.releaseRunWriter c r).activeRuns d q = some b →
      ¬ (d = c ∧ q = r) ∧ p.registry.activeRuns d q = some b := by
    intro d q b hb
    rw [Registry.releaseRunWriter_activeRuns] at hb
    split at hb
    · cases hb
    · rename_i hne; exact ⟨hne, hb⟩
  have hstay : ∀ d q b, ¬ (d = c ∧ q = r) → p.registry.activeRuns d q = some b →
      (p.registry.releaseRunWriter c r).activeRuns d q = some b := by
    intro d q b hne hb
    rw [Registry.releaseRunWriter_activeRuns, if_neg hne]; exact hb
  refine h.build (p.registry.releaseRunWriter c r) p.runs p.torn (h.registry.releaseRunWriter c r) hi
    (fun j hj => ?_) ?_ ?_ (fun d q e => by rw [hth] at e; cases e)
  · refine (h.threads j).shrink h.registry hkeep (fun d q b hb => (hmap d q b hb).2) fun d q b e hb => ?_
    by_cases hdq : d = c ∧ q = r
    · obtain ⟨rfl, rfl⟩ := hdq
      exact Or.inl (ht j hj b e hb)
    · exact Or.inr (hstay d q b hdq hb)
  · intro run hrun hn
    rw [Registry.releaseRunWriter_handles] at hrun
    rw [Registry.releaseRunWriter_admission] at hn
    rcases h.attached run hrun hn with htorn | hb
    · exact Or.inl htorn
    · by_cases hdq : run.client = c ∧ run.runId = r
      · rw [hdq.1, hdq.2] at hb
        exact Or.inl (hdq.1 ▸ hh run hrun hb hn)
      · exact Or.inr (hstay _ _ _ hdq hb)
  · intro d q b hb htb
    obtain ⟨hne, hb⟩ := hmap d q b hb
    rw [Registry.releaseRunWriter_admission] at htb
    obtain ⟨j, hj⟩ := h.dead d q b hb htb
    refine Or.inr ⟨j, ?_, hj⟩
    rintro rfl
    exact hne (he d q b hj)

theorem LockInv.releaseAll {c : Nat} (hi : p.threads i = .tearing c) :
    LockInv ((p.setRegistry (p.registry.releaseAllRunWriters c)).setThread i .idle) := by
  have hkeep := p.registry.keeps_releaseAll c
  have htorn : p.torn c = true := (h.threads i).tearing c hi
  have hmap : ∀ d q b, (p.registry.releaseAllRunWriters c).activeRuns d q = some b →
      p.registry.activeRuns d q = some b := by
    intro d q b hb
    rw [Registry.releaseAll_activeRuns] at hb
    split at hb
    · cases hb
    · exact hb
  have hstay : ∀ d q b, p.registry.activeRuns d q = some b →
      (p.registry.releaseAllRunWriters c).Attached p.torn d q b := by
    intro d q b hb
    by_cases hd : d = c
    · exact Or.inl (hd ▸ htorn)
    · refine Or.inr ?_
      rw [Registry.releaseAll_activeRuns, if_neg hd]; exact hb
  refine h.build (p.registry.releaseAllRunWriters c) p.runs p.torn (h.registry.releaseAll c)
    (Thread.sound_free rfl nofun nofun) (fun j _ => ?_) ?_ ?_ nofun
  · exact (h.threads j).shrink h.registry hkeep hmap fun d q b _ hb => hstay d q b hb
  · intro run hrun hn
    rw [Registry.releaseAll_admission] at hn
    rcases h.attached run hrun hn with ht | hb
    · exact Or.inl ht
    · exact hstay _ _ _ hb
  · intro d q b hb ht
    rw [Registry.releaseAll_admission] at ht
    exact Or.inr (h.dead_elsewhere (by rw [hi]; rfl) (hmap d q b hb) ht)

theorem LockInv.setGate {a : Nat} {x : Option Nat}
    (hg : (p.registry.active a).gate = none ∨ (p.registry.active a).gate = some i)
    (hi : th.Sound (p.registry.setGate a x) p.torn i) (he : (p.threads i).ends = none)
    (hth : th.finalizes = none) : LockInv ((p.setRegistry (p.registry.setGate a x)).setThread i th) := by
  refine h.build (p.registry.setGate a x) p.runs p.torn (h.registry.setGate a x) hi (fun j hj => ?_) ?_ ?_
    (fun d q e => by rw [hth] at e; cases e)
  · refine (h.threads j).setGate ?_
    rintro run e rfl
    have hgate := ((h.threads j).logging run e).2.1
    rcases hg with hg | hg
    · rw [hg] at hgate; cases hgate
    · rw [hg] at hgate; exact hj (Option.some.inj hgate).symm
  · intro run hrun hn
    rw [Registry.setGate_admission] at hn
    exact h.attached run hrun hn
  · intro d q b hb ht
    rw [Registry.setGate_admission] at ht
    exact Or.inr (h.dead_elsewhere he hb ht)

theorem LockInv.runHandle (c : Nat) (r : RunId) :
    LockInv (p.setRegistry (p.registry.runHandle c r)) := by
  have hkeep := p.registry.keeps_runHandle c r
  have hmap := p.registry.runHandle_activeRuns c r
  refine ⟨h.registry.runHandle c r, fun j => ?_, ?_, ?_, h.unique⟩
  · refine (h.threads j).shrink h.registry hkeep ?_ fun d q b _ hb => Or.inr ?_
    · intro d q b hb
      change (p.registry.runHandle c r).activeRuns d q = some b at hb
      rw [hmap] at hb; exact hb
    · show (p.registry.runHandle c r).activeRuns d q = some b
      rw [hmap]; exact hb
  · intro run hrun hn
    show (p.registry.runHandle c r).Attached p.torn run.client run.runId run.activeRun
    unfold Registry.Attached
    rw [hmap]
    rcases (Registry.runHandle_handles _ _ _).mp hrun with hr | ⟨a, rfl, ha | ⟨ha, rfl⟩⟩
    · change ((p.registry.runHandle c r).active run.activeRun).admission ≠ _ at hn
      rw [hkeep.admission _ _ _ (h.registry.handled run hr)] at hn
      exact h.attached run hr hn
    · exact Or.inr ha
    · change ((p.registry.runHandle c r).active p.registry.fresh).admission ≠ _ at hn
      rw [Registry.runHandle_active, if_pos ⟨ha, rfl⟩] at hn
      exact absurd rfl hn
  · intro d q b hb ht
    change (p.registry.runHandle c r).activeRuns d q = some b at hb
    change ((p.registry.runHandle c r).active b).admission = _ at ht
    rw [hmap] at hb
    rw [hkeep.admission _ _ _ (h.registry.keyed d q b hb)] at ht
    exact h.dead d q b hb ht

theorem LockInv.tear {c : Nat} (hi : p.threads i = .idle) :
    LockInv ({ p with torn := Function.update p.torn c true }.setThread i (.tearing c)) := by
  have htorn : ∀ d, p.torn d = true → Function.update p.torn c true d = true := by
    intro d hd
    by_cases hdc : d = c
    · subst hdc; exact Function.update_self ..
    · rw [Function.update_of_ne hdc]; exact hd
  have hatt : ∀ {d q b}, p.registry.Attached p.torn d q b →
      p.registry.Attached (Function.update p.torn c true) d q b := fun ha => ha.imp (htorn _) id
  refine h.build p.registry p.runs (Function.update p.torn c true) h.registry ?_ (fun j _ => ?_)
    (fun run hrun hn => hatt (h.attached run hrun hn))
    (fun d q b hb ht => Or.inr (h.dead_elsewhere (by rw [hi]; rfl) hb ht)) nofun
  · refine ⟨nofun, nofun, nofun, nofun, nofun, fun d e => ?_⟩
    cases e; exact Function.update_self ..
  · have hj := h.threads j
    exact ⟨hj.keyed, fun d q b e => (hj.held d q b e).imp id hatt,
      fun d q b e => (hj.ended d q b e).imp id hatt, hj.undone, hj.logging,
      fun d e => htorn d (hj.tearing d e)⟩

/-! ### Steps -/

theorem LockInv.move {q : Protocol} {l : ProtocolAct} (hl : UndoesAlone p l) (hm : ProtocolMove p i l q) :
    LockInv q := by
  have hti := h.threads i
  cases hm with
  | stay => exact h
  | returns hr =>
    refine h.setThread (Thread.sound_free rfl nofun nofun) ?_ nofun
    generalize p.threads i = ti at hr
    cases ti <;> first | rfl | cases hr
  | begin hi =>
    refine h.setThread (Thread.sound_free rfl nofun nofun) (by rw [hi]; rfl) fun c r e => Or.inr ?_
    cases e; exact hl.begins _ _ rfl
  | absent hi => exact h.setThread (Thread.sound_free rfl nofun nofun) (by rw [hi]; rfl) nofun
  | share ha hth =>
    rename_i c r a th
    have hkey := h.registry.keyed c r a ha
    generalize hti' : p.threads i = ti at hth
    cases hth with
    | create =>
      refine h.setThread ⟨fun _ _ _ e => ?_, nofun, nofun, nofun, nofun, nofun⟩ (by rw [hti']; rfl) nofun
      cases e; exact hkey
    | finalize =>
      -- a terminal one would belong to another finalizer
      have hlive := h.fresh_finalizer (i := i) (by rw [hti']; rfl) (by rw [hti']; rfl) ha
      refine h.setThread ⟨fun _ _ _ e => ?_, fun _ _ _ e => ?_, nofun, nofun, nofun, nofun⟩
        (by rw [hti']; rfl) fun c r e => Or.inl (by rw [hti']; exact e)
      · cases e; exact hkey
      · cases e; exact ⟨hlive, Or.inr ha⟩
    | resume => exact h.setThread (Thread.sound_free rfl nofun nofun) (by rw [hti']; rfl) nofun
  | register ha hlock hth => exact h.register ha hlock hth
  | check hi | undo hi =>
    refine h.setThread ⟨fun _ _ _ e => ?_, nofun, nofun, nofun, nofun, nofun⟩ ?_ nofun
    · cases e
      first
      | exact hti.keyed _ _ _ (by rw [hi]; rfl)
      | (rcases hi with hi | hi <;> exact hti.keyed _ _ _ (by rw [hi]; rfl))
    · first
      | (rw [hi]; rfl)
      | (rcases hi with hi | hi <;> (rw [hi]; rfl))
  | insert hi =>
    exact (h.setRuns _).setThread (Thread.sound_free rfl nofun nofun)
      (by show (p.threads i).ends = none; rw [hi]; rfl) nofun
  | undoWriter hi =>
    rename_i c r a
    have hkey := hti.keyed c r a (by rw [hi]; rfl)
    refine h.releaseRunWriter ?_ ?_ ⟨fun _ _ _ e => ?_, nofun, nofun, fun _ _ _ e d q hd => ?_, nofun, nofun⟩
      ?_ rfl
    · intro run hrun hb
      exact absurd rfl ((hl.undoes c r _ rfl hb).1 run hrun)
    · intro j _ b e hb
      obtain ⟨h1, h2⟩ := (hl.undoes c r b rfl hb).2 j
      exact absurd e (not_or.mpr ⟨h1, h2⟩)
    · cases e; exact (p.registry.keeps_releaseRunWriter c r).keyed _ _ _ hkey
    · -- the thread's own active run was under this key, if anywhere
      cases e
      rw [Registry.releaseRunWriter_activeRuns] at hd
      split at hd
      · cases hd
      · rename_i hne
        obtain ⟨⟨h1, h2⟩, -⟩ := h.registry.keyed d q a hd
        exact hne ⟨h1.symm.trans hkey.1.1, h2.symm.trans hkey.1.2⟩
    · intro d q b e; rw [hi] at e; cases e
  | undoLock hi =>
    rename_i c r a
    exact h.releaseLock (Or.inr (hti.undone c r a hi)) (Thread.sound_free rfl nofun nofun) (by rw [hi]; rfl) nofun
  | close hi hg =>
    rename_i c r a
    have := h.readmit hi hg (x := .closing) nofun (Or.inr rfl)
    rwa [setThread_self (p := p.setRegistry (p.registry.setAdmission a .closing)) hi] at this
  | reopen hi hg => exact h.readmit hi hg nofun (Or.inl rfl)
  | mark hi =>
    rename_i c r a target t hrun
    rw [hi] at hti
    refine (h.setRuns _).setThread ⟨fun _ _ _ e => ?_, fun _ _ _ e => ?_, nofun, nofun, nofun, nofun⟩
      (by show (p.threads i).ends = none; rw [hi]; rfl)
      (fun c r e => Or.inl (by show (p.threads i).finalizes = _; rw [hi]; exact e))
    · cases e; exact hti.keyed c r a rfl
    · cases e; exact hti.held c r a rfl
  | markTerminal hi hg => exact h.markTerminal hi hg
  | releaseLock hi =>
    rename_i c r a
    rw [hi] at hti
    refine h.releaseLock (Or.inl (hti.ended c r a rfl).1)
      ⟨fun _ _ _ e => ?_, nofun, fun _ _ _ e => ?_, nofun, nofun, nofun⟩ (by rw [hi]; rfl)
      (fun _ _ e => by rw [hi]; exact e)
    · cases e; exact hti.keyed c r a rfl
    · cases e; exact hti.ended c r a rfl
  | releaseWriter hi =>
    rename_i c r a
    rw [hi] at hti
    obtain ⟨hterm, hatt⟩ := hti.ended c r a rfl
    refine h.releaseRunWriter ?_ ?_ (Thread.sound_free rfl nofun nofun) ?_ rfl
    · intro run _ hb hn
      rcases hatt with ht | ha
      · exact ht
      · rw [ha] at hb
        exact absurd (Option.some.inj hb ▸ hterm) hn
    · intro j hj b e _
      have hf : (p.threads j).finalizes = some (c, r) :=
        e.elim Thread.finalizes_of_holds Thread.finalizes_of_ends
      exact absurd (h.unique j i c r hf (by rw [hi]; rfl)) hj
    · intro d q b e
      rw [hi] at e; cases e; exact ⟨rfl, rfl⟩
  | enter hi hrun hg hadm =>
    rename_i run
    refine h.setGate (Or.inl hg) ⟨nofun, nofun, nofun, nofun, fun _ e => ?_, nofun⟩ (by rw [hi]; rfl) rfl
    cases e
    rw [Registry.setGate_active, if_pos rfl]
    exact ⟨hrun, rfl, hadm⟩
  | leave hi =>
    exact h.setGate (Or.inr (hti.logging _ hi).2.1) (Thread.sound_free rfl nofun nofun) (by rw [hi]; rfl) rfl
  | tear hi => exact h.tear hi
  | releaseAll hi => exact h.releaseAll hi
  | handle => exact h.runHandle _ _

/-- A report under the admission gate is made under the lock of its run, as long
as the client has its sender. -/
theorem LockInv.logging_locked {run : NativeRun} (hi : p.threads i = .logging run)
    (ht : p.torn run.client = false) :
    p.registry.locks (lockFile run.runId) = some run.activeRun ∧
      (p.registry.active run.activeRun).client = run.client ∧
      (p.registry.active run.activeRun).runId = run.runId := by
  obtain ⟨hrun, -, hadm⟩ := (h.threads i).logging run hi
  have hlive : (p.registry.active run.activeRun).admission ≠ .terminal := by rw [hadm]; nofun
  have hreg : p.registry.activeRuns run.client run.runId = some run.activeRun := by
    refine (h.attached run hrun hlive).resolve_left ?_
    rw [ht]; nofun
  exact ⟨h.registry.holds hreg hlive, (h.registry.handled run hrun).1⟩

end

theorem lockInv_init (projects : List Project) (runs : List Run) (capacity : Nat → Nat) :
    LockInv (World.init projects runs capacity).protocol where
  registry := ⟨nofun, nofun, nofun, nofun⟩
  threads _ := Thread.sound_free rfl nofun nofun
  attached := nofun
  dead := nofun
  unique := nofun

/-! ## The clients -/

/-- The client holds the writer lock of the run. -/
def World.holdsLock (s : World) (c : Nat) (r : RunId) : Prop :=
  ∃ a, s.registry.locks (lockFile r) = some a ∧ (s.registry.active a).client = c ∧
    (s.registry.active a).runId = r

/-- Call `i` has been admitted to report, and the client has its sender. -/
def World.reports (s : World) (i : Nat) (run : NativeRun) : Prop :=
  (∃ key n v, s.calls i = .logMetricAtStep run key n v .report) ∧
    (s.clients run.client).reporter.sender = true

/-- The next step of call `i` returns `Ok` from its report. -/
def World.accepts (s : World) (i : Nat) (run : NativeRun) : Prop :=
  ∃ key n v env t, s.calls i = .logMetricAtStep run key n v .report ∧ s.step (.go i env) = some t ∧
    t.calls i = .returned (.ok none)

def Call.finalizing : Call → Option RunId
  | .finalizeRun _ r _ _ => some r
  | _ => none

/-- The run a `create_run` is about to run `release_run_writer` for. -/
def Call.undoes : Call → Option (Nat × RunId)
  | .createRun c _ _ r (.releaseWriter _ _) => some (c, r)
  | _ => none

/-- The client and run that the step starts to finish. -/
def WorldAct.finalizes : WorldAct → Option (Nat × RunId)
  | .start _ request => request.finalizes
  | _ => none

/-- The call that takes the step. -/
def WorldAct.caller (s : World) : WorldAct → Call
  | .go i _ => s.calls i
  | _ => .idle

/-- At most one `finish_run` or `fail_run` is in flight for a run. -/
def OneFinalizer (s : World) (act : WorldAct) : Prop :=
  ∀ c r, act.finalizes = some (c, r) → ∀ j, (s.calls j).finalizing ≠ some r

/-- A `create_run` that undoes its `acquire_run_writer` finds no active run in the
map that a handle or a finalizer has. -/
def WithdrawsAlone (s : World) (act : WorldAct) : Prop :=
  ∀ c r a, (act.caller s).undoes = some (c, r) → s.registry.activeRuns c r = some a →
    (∀ run ∈ s.registry.handles, run.activeRun ≠ a) ∧
      ∀ j, (s.calls j).thread.holds ≠ some (c, r, a) ∧ (s.calls j).thread.ends ≠ some (c, r, a)

theorem finalizing_of_thread {k : Call} {c : Nat} {r : RunId} (h : k.thread.finalizes = some (c, r)) :
    k.finalizing = some r := by
  cases k.threaded with
  | idle e | shutdown e => rw [e] at h; cases h
  | create _ _ _ _ pc => cases pc <;> cases h
  | finalize _ _ _ pc => cases pc <;> cases h <;> rfl
  | log => cases h

theorem undoesAlone_of_step {s : World} {i : Nat} {act : WorldAct} {l : ProtocolAct} {q : Protocol}
    (hone : OneFinalizer s act) (hw : WithdrawsAlone s act) (hm : ProtocolMove s.protocol i l q)
    (ho : l.Of s i act) : UndoesAlone s.protocol l := by
  refine ⟨?_, ?_⟩
  · rintro c r rfl j hj
    cases ho with
    | begins hreq => exact hone c r hreq j (finalizing_of_thread (k := s.calls j) hj)
    | go hby => exact absurd rfl (hby.begins c r)
  · rintro c r a rfl ha
    cases ho with
    | go hby =>
      cases hm with
      | undoWriter hi =>
        obtain ⟨_, _, _, hc⟩ := thread_undoing (k := s.calls i) hi
        exact hw c r a (by rw [show WorldAct.caller s _ = s.calls i from rfl, hc]; rfl) ha

theorem leaveGate_returned (s : World) (i : Nat) (run : NativeRun) (outcome : Option (Except EngineError Unit)) :
    (s.leaveGate i run outcome).calls i = .returned (match outcome with
      | some (.error e) => .error e
      | _ => .ok none) := Function.update_self ..

/-- A call whose report returns `Ok` made it to a client with its sender. -/
theorem reports_of_accepts {s : World} {i : Nat} {run : NativeRun}
    (hc : Counted (s.clients run.client).reporter) (h : s.accepts i run) : s.reports i run := by
  obtain ⟨key, n, v, env, t, hcall, hs, ht⟩ := h
  refine ⟨⟨key, n, v, hcall⟩, ?_⟩
  by_contra hsend
  have hsend : (s.clients run.client).reporter.sender = false := by simpa using hsend
  have hnone := hc.closed hsend
  simp only [World.step, hcall, World.callStep, World.logMetricAtStepStep] at hs
  split at hs
  · -- the report finds the sender gone
    simp only [Reporter.step, Reporter.reportMetric, hnone, hsend, Option.isSome_none, Bool.false_eq_true,
      ite_false, Option.map_some, Option.some.injEq, Reporter.returns] at hs
    subst hs
    have hself := leaveGate_returned (s.setReporter run.client ((s.clients run.client).reporter.returns
      (.error .clientClosed))) i run (some (.error .clientClosed))
    cases hself.symm.trans ht
  · split at hs
    · simp only [Reporter.step, hnone, Option.map_none, reduceCtorEq] at hs
    · cases hs

/-- Every report is admitted and accepted under the writer lock of its run, held
by the client it is made on, as long as no `create_run` takes back an active run
that a handle or a finalizer has; so no two clients report to one run. -/
theorem reports_under_lock {projects : List Project} {runs : List Run} {capacity : Nat → Nat}
    {acts : List WorldAct} {s : World}
    (h : exec World.step (World.init projects runs capacity) acts = some s)
    (hm : Meets World.step (fun s act => OneFinalizer s act ∧ WithdrawsAlone s act)
      (World.init projects runs capacity) acts) :
    (∀ i run, s.accepts i run → s.reports i run) ∧
      (∀ i run, s.reports i run → s.holdsLock run.client run.runId) ∧
      ∀ i j run other, s.reports i run → s.reports j other → run.runId = other.runId →
        run.client = other.client := by
  have hinv : LockInv s.protocol := by
    refine exec_inv World.step (I := fun s => LockInv s.protocol) ?_ hm h
      (lockInv_init projects runs capacity)
    intro s act t hkeep hst hi
    obtain ⟨j, l, hmove, hof⟩ := world_refines hst
    exact hi.move (undoesAlone_of_step hkeep.1 hkeep.2 hmove hof) hmove
  have hcounted : ∀ c, Ordered (s.clients c).reporter ∧ Counted (s.clients c).reporter :=
    reporters_inv (I := fun r => Ordered r ∧ Counted r)
      (fun r act r' hs hi => ⟨hi.1.step hs, hi.2.step hi.1 hs⟩)
      (fun capacity => ⟨ordered_init capacity, counted_init capacity⟩) h
  have hlocked : ∀ i run, s.reports i run →
      s.registry.locks (lockFile run.runId) = some run.activeRun ∧
        (s.registry.active run.activeRun).client = run.client ∧
        (s.registry.active run.activeRun).runId = run.runId := by
    rintro i run ⟨⟨key, n, v, hc⟩, hsend⟩
    refine hinv.logging_locked (i := i) ?_ ?_
    · show (s.calls i).thread = _; rw [hc]; rfl
    · show (!(s.clients run.client).reporter.sender) = false; rw [hsend]; rfl
  refine ⟨fun i run => reports_of_accepts (hcounted run.client).2,
    fun i run hr => ⟨run.activeRun, hlocked i run hr⟩, ?_⟩
  intro i j run other hi hj he
  obtain ⟨hl, hcl, -⟩ := hlocked i run hi
  obtain ⟨hl', hcl', -⟩ := hlocked j other hj
  rw [he, hl'] at hl
  rw [← hcl, ← hcl', Option.some.inj hl]

/-! ## Two creations of one run -/

theorem oneFinalizer_of_none {s : World} {act : WorldAct} (h : act.finalizes = none) : OneFinalizer s act :=
  fun _ _ e => by rw [h] at e; cases e

/-- A handle on a run that is created reports up to its last step. -/
def reportingRun : List WorldAct := List.flatten
  [createActs, [.start 1 (.logMetricAtStep handleR "k" 0 ⟨0⟩)], List.replicate 6 (.go 1 {})]

theorem reports_under_lock_run : ∃ s,
    exec World.step (World.init [⟨"p", "p", 0⟩] [] fun _ => 1) reportingRun = some s ∧
      s.accepts 1 handleR ∧ s.holdsLock 0 "r" := by
  have hrun : ∃ s t, exec World.step (World.init [⟨"p", "p", 0⟩] [] fun _ => 1) reportingRun = some s ∧
      s.calls 1 = .logMetricAtStep handleR "k" 0 ⟨0⟩ .report ∧ s.step (.go 1 {}) = some t ∧
      t.calls 1 = .returned (.ok none) := ⟨_, _, rfl, rfl, rfl, rfl⟩
  obtain ⟨s, t, h, hc, hs, ht⟩ := hrun
  have hmeets : Meets World.step (fun s act => OneFinalizer s act ∧ WithdrawsAlone s act)
      (World.init [⟨"p", "p", 0⟩] [] fun _ => 1) reportingRun := by
    refine meets_mono World.step (C := fun s act => act.finalizes = none ∧ (act.caller s).undoes = none)
      (fun s act hn => ⟨oneFinalizer_of_none hn.1, fun c r a e => ?_⟩) (by decide)
    rw [hn.2] at e; cases e
  have hacc : s.accepts 1 handleR := ⟨"k", 0, ⟨0⟩, {}, t, hc, hs, ht⟩
  obtain ⟨hr, hl, -⟩ := reports_under_lock h hmeets
  exact ⟨s, h, hacc, hl 1 handleR (hr 1 handleR hacc)⟩

/-- Both calls find the run absent; the second one shares the active run of the
first, finds the run created and takes the active run back. -/
def twoCreationsRun : List WorldAct := List.flatten
  [[.start 0 (.createRun 0 "p" "n" "r"), .start 1 (.createRun 0 "p" "n" "r")],
    List.replicate 3 (.go 0 {}), List.replicate 3 (.go 1 {}), List.replicate 3 (.go 0 {}),
    [.runHandle 0 "r"], List.replicate 4 (.go 1 {}), [.start 2 (.logMetricAtStep handleR "k" 0 ⟨0⟩)],
    List.replicate 6 (.go 2 {})]

theorem second_creation_releases : ¬ ∀ projects runs capacity acts s,
    exec World.step (World.init projects runs capacity) acts = some s →
    Meets World.step OneFinalizer (World.init projects runs capacity) acts →
    ∀ i run, s.accepts i run → s.holdsLock run.client run.runId := by
  intro hall
  have hrun : ∃ s t, exec World.step (World.init [⟨"p", "p", 0⟩] [] fun _ => 1) twoCreationsRun = some s ∧
      s.calls 2 = .logMetricAtStep handleR "k" 0 ⟨0⟩ .report ∧ s.step (.go 2 {}) = some t ∧
      t.calls 2 = .returned (.ok none) ∧ s.registry.locks (lockFile "r") = none :=
    ⟨_, _, rfl, rfl, rfl, rfl, rfl⟩
  obtain ⟨s, t, h, hc, hs, ht, hl⟩ := hrun
  have hmeets : Meets World.step OneFinalizer (World.init [⟨"p", "p", 0⟩] [] fun _ => 1) twoCreationsRun :=
    meets_mono World.step (C := fun _ act => act.finalizes = none)
      (fun _ _ hn => oneFinalizer_of_none hn) (by decide)
  obtain ⟨a, ha, -⟩ := hall _ _ _ _ s h hmeets 2 handleR ⟨"k", 0, ⟨0⟩, {}, t, hc, hs, ht⟩
  change s.registry.locks (lockFile "r") = some a at ha
  rw [hl] at ha; cases ha

end Pulseon
