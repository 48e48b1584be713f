import Pulseon.RunProtocol

/-!
# What the operations on active runs leave alone

Each operation changes the locks, one active run and one entry of one client's
map; clients, runs and gates of the active runs stay as they were made.
-/

namespace Pulseon

namespace Registry
variable (g : Registry) (a b c : Nat) (r : RunId)

/-! ## Setters -/

theorem setAdmission_active (x : RunAdmission) : (g.setAdmission a x).active b =
    if b = a then { g.active a with admission := x } else g.active b := by
  unfold setAdmission
  by_cases h : b = a
  · subst h; simp
  · simp [h]

theorem setGate_active (x : Option Nat) : (g.setGate a x).active b =
    if b = a then { g.active a with gate := x } else g.active b := by
  unfold setGate
  by_cases h : b = a
  · subst h; simp
  · simp [h]

@[simp] theorem setAdmission_client (x : RunAdmission) :
    ((g.setAdmission a x).active b).client = (g.active b).client := by
  rw [setAdmission_active]; split
  · rename_i h; rw [h]
  · rfl

@[simp] theorem setAdmission_runId (x : RunAdmission) :
    ((g.setAdmission a x).active b).runId = (g.active b).runId := by
  rw [setAdmission_active]; split
  · rename_i h; rw [h]
  · rfl

@[simp] theorem setAdmission_writerGuard (x : RunAdmission) :
    ((g.setAdmission a x).active b).writerGuard = (g.active b).writerGuard := by
  rw [setAdmission_active]; split
  · rename_i h; rw [h]
  · rfl

@[simp] theorem setGate_client (x : Option Nat) :
    ((g.setGate a x).active b).client = (g.active b).client := by
  rw [setGate_active]; split
  · rename_i h; rw [h]
  · rfl

@[simp] theorem setGate_runId (x : Option Nat) :
    ((g.setGate a x).active b).runId = (g.active b).runId := by
  rw [setGate_active]; split
  · rename_i h; rw [h]
  · rfl

@[simp] theorem setGate_writerGuard (x : Option Nat) :
    ((g.setGate a x).active b).writerGuard = (g.active b).writerGuard := by
  rw [setGate_active]; split
  · rename_i h; rw [h]
  · rfl

@[simp] theorem setGate_admission (x : Option Nat) :
    ((g.setGate a x).active b).admission = (g.active b).admission := by
  rw [setGate_active]; split
  · rename_i h; rw [h]
  · rfl

theorem setActiveRun_activeRuns (x : Option Nat) (d : Nat) (q : RunId) :
    (g.setActiveRun c r x).activeRuns d q = if d = c ∧ q = r then x else g.activeRuns d q := by
  unfold setActiveRun
  by_cases hd : d = c
  · subst hd
    by_cases hq : q = r
    · subst hq; simp
    · simp [hq]
  · simp [hd]

theorem register_active : (g.register c r).active b =
    if b = g.fresh then ⟨c, r, true, .opened, none⟩ else g.active b := by
  unfold register setActiveRun addActive setLock
  by_cases h : b = g.fresh
  · simp [h]
  · simp [h]

theorem register_activeRuns (d : Nat) (q : RunId) : (g.register c r).activeRuns d q =
    if d = c ∧ q = r then some g.fresh else g.activeRuns d q :=
  setActiveRun_activeRuns _ c r _ d q

theorem register_locks (file : String) : (g.register c r).locks file =
    if file = lockFile r then some g.fresh else g.locks file := by
  unfold register setActiveRun addActive setLock
  by_cases h : file = lockFile r
  · simp [h]
  · simp [h]

/-! ## release_lock -/

@[simp] theorem releaseLock_activeRuns : (g.releaseLock a).activeRuns = g.activeRuns := by
  unfold releaseLock; split <;> rfl

@[simp] theorem releaseLock_fresh : (g.releaseLock a).fresh = g.fresh := by
  unfold releaseLock; split <;> rfl

@[simp] theorem releaseLock_handles : (g.releaseLock a).handles = g.handles := by
  unfold releaseLock; split <;> rfl

@[simp] theorem releaseLock_terminated : (g.releaseLock a).terminated = g.terminated := by
  unfold releaseLock; split <;> rfl

theorem releaseLock_active : (g.releaseLock a).active b =
    if b = a then { g.active a with writerGuard := false } else g.active b := by
  unfold releaseLock
  by_cases h : b = a
  · subst h
    split
    · simp
    · rename_i hg
      have : (g.active b).writerGuard = false := by simpa using hg
      simp [← this]
  · split <;> simp [h]

theorem releaseLock_locks (file : String) : (g.releaseLock a).locks file =
    if (g.active a).writerGuard = true ∧ file = lockFile (g.active a).runId then none else g.locks file := by
  unfold releaseLock setLock
  by_cases hg : (g.active a).writerGuard = true
  · by_cases hf : file = lockFile (g.active a).runId
    · simp [hg, hf]
    · simp [hg, hf]
  · simp [hg]

/-- Nothing but its guard changes in an active run. -/
@[simp] theorem releaseLock_admission : ((g.releaseLock a).active b).admission = (g.active b).admission := by
  rw [releaseLock_active]; split
  · rename_i h; rw [h]
  · rfl

@[simp] theorem releaseLock_client : ((g.releaseLock a).active b).client = (g.active b).client := by
  rw [releaseLock_active]; split
  · rename_i h; rw [h]
  · rfl

@[simp] theorem releaseLock_runId : ((g.releaseLock a).active b).runId = (g.active b).runId := by
  rw [releaseLock_active]; split
  · rename_i h; rw [h]
  · rfl

@[simp] theorem releaseLock_gate : ((g.releaseLock a).active b).gate = (g.active b).gate := by
  rw [releaseLock_active]; split
  · rename_i h; rw [h]
  · rfl

/-! ## release_run_writer -/

@[simp] theorem releaseRunWriter_fresh : (g.releaseRunWriter c r).fresh = g.fresh := by
  unfold releaseRunWriter; split
  · rw [releaseLock_fresh]; rfl
  · rfl

@[simp] theorem releaseRunWriter_handles : (g.releaseRunWriter c r).handles = g.handles := by
  unfold releaseRunWriter; split
  · rw [releaseLock_handles]; rfl
  · rfl

@[simp] theorem releaseRunWriter_terminated : (g.releaseRunWriter c r).terminated = g.terminated := by
  unfold releaseRunWriter; split
  · rw [releaseLock_terminated]; rfl
  · rfl

theorem releaseRunWriter_activeRuns (d : Nat) (q : RunId) : (g.releaseRunWriter c r).activeRuns d q =
    if d = c ∧ q = r then none else g.activeRuns d q := by
  unfold releaseRunWriter
  cases ha : g.activeRuns c r with
  | some a => dsimp only; rw [releaseLock_activeRuns, setActiveRun_activeRuns]
  | none =>
    dsimp only
    by_cases h : d = c ∧ q = r
    · rw [if_pos h, h.1, h.2, ha]
    · rw [if_neg h]

theorem releaseRunWriter_active : (g.releaseRunWriter c r).active b =
    if g.activeRuns c r = some b then { g.active b with writerGuard := false } else g.active b := by
  unfold releaseRunWriter
  cases ha : g.activeRuns c r with
  | some a =>
    dsimp only
    rw [releaseLock_active]
    by_cases h : b = a
    · subst h; simp [setActiveRun]
    · have : a ≠ b := fun e => h e.symm
      simp [h, this, setActiveRun]
  | none => simp

@[simp] theorem releaseRunWriter_admission :
    ((g.releaseRunWriter c r).active b).admission = (g.active b).admission := by
  rw [releaseRunWriter_active]; split <;> rfl

@[simp] theorem releaseRunWriter_client :
    ((g.releaseRunWriter c r).active b).client = (g.active b).client := by
  rw [releaseRunWriter_active]; split <;> rfl

@[simp] theorem releaseRunWriter_runId :
    ((g.releaseRunWriter c r).active b).runId = (g.active b).runId := by
  rw [releaseRunWriter_active]; split <;> rfl

@[simp] theorem releaseRunWriter_gate :
    ((g.releaseRunWriter c r).active b).gate = (g.active b).gate := by
  rw [releaseRunWriter_active]; split <;> rfl

/-! ## release_all_run_writers -/

theorem releaseAll_active : (g.releaseAllRunWriters c).active b =
    if g.registered c b then { g.active b with writerGuard := false } else g.active b := rfl

theorem releaseAll_activeRuns (d : Nat) (q : RunId) : (g.releaseAllRunWriters c).activeRuns d q =
    if d = c then none else g.activeRuns d q := by
  unfold releaseAllRunWriters
  by_cases hd : d = c
  · simp [hd]
  · simp [hd]

@[simp] theorem releaseAll_admission :
    ((g.releaseAllRunWriters c).active b).admission = (g.active b).admission := by
  rw [releaseAll_active]; split <;> rfl

@[simp] theorem releaseAll_client :
    ((g.releaseAllRunWriters c).active b).client = (g.active b).client := by
  rw [releaseAll_active]; split <;> rfl

@[simp] theorem releaseAll_runId :
    ((g.releaseAllRunWriters c).active b).runId = (g.active b).runId := by
  rw [releaseAll_active]; split <;> rfl

@[simp] theorem releaseAll_gate :
    ((g.releaseAllRunWriters c).active b).gate = (g.active b).gate := by
  rw [releaseAll_active]; split <;> rfl

/-! ## run_handle -/

theorem runHandle_active : (g.runHandle c r).active b =
    if g.activeRuns c r = none ∧ b = g.fresh then ⟨c, r, false, .terminal, none⟩ else g.active b := by
  unfold runHandle
  cases ha : g.activeRuns c r with
  | some a => simp
  | none =>
    by_cases h : b = g.fresh
    · simp [h, addActive]
    · simp [h, addActive]

@[simp] theorem runHandle_activeRuns : (g.runHandle c r).activeRuns = g.activeRuns := by
  unfold runHandle; split <;> rfl

@[simp] theorem runHandle_locks : (g.runHandle c r).locks = g.locks := by
  unfold runHandle; split <;> rfl

@[simp] theorem runHandle_terminated : (g.runHandle c r).terminated = g.terminated := by
  unfold runHandle; split <;> rfl

theorem runHandle_fresh : g.fresh ≤ (g.runHandle c r).fresh := by
  unfold runHandle; split
  · exact Nat.le_refl _
  · exact Nat.le_succ _

theorem runHandle_handles {run : NativeRun} : run ∈ (g.runHandle c r).handles ↔ run ∈ g.handles ∨
    ∃ a, run = ⟨c, r, a⟩ ∧ (g.activeRuns c r = some a ∨ g.activeRuns c r = none ∧ a = g.fresh) := by
  unfold runHandle
  cases ha : g.activeRuns c r with
  | some a => simp [eq_comm]
  | none => simp

end Registry

end Pulseon
