import Pulseon.WorldSound
import Pulseon.RegistrySound

/-!
# What a terminal run keeps closed

`mark_terminal` closes the one active run that can be open, if it is the one in
the client's map. Two steps can open admission again: another finalizer that
shares it and runs `open_admission`, and an `acquire_run_writer` that finds the
map empty.
-/

namespace Pulseon

/-- Steps of finalizers and of calls that log, make handles, create or resume,
none of which reopens or registers a run that is terminated. -/
structure StaysTerminal (p : Protocol) (l : ProtocolAct) : Prop where
  writers : ∀ c r, l ≠ .undoWriter c r
  locks : ∀ c, l ≠ .releaseAll c
  reopens : ∀ c r, l = .reopen c r → (c, r) ∉ p.registry.terminated
  registers : ∀ c r, l = .register c r → (c, r) ∉ p.registry.terminated

structure AdmissionInv (p : Protocol) : Prop where
  keyed : ∀ c r a, p.registry.activeRuns c r = some a →
    ((p.registry.active a).client = c ∧ (p.registry.active a).runId = r) ∧ a < p.registry.fresh
  handled : ∀ run ∈ p.registry.handles, ((p.registry.active run.activeRun).client = run.client ∧
    (p.registry.active run.activeRun).runId = run.runId) ∧ run.activeRun < p.registry.fresh
  opened : ∀ a, (p.registry.active a).admission = .opened →
    ((p.registry.active a).client, (p.registry.active a).runId) ∉ p.registry.terminated ∧
      p.registry.activeRuns (p.registry.active a).client (p.registry.active a).runId = some a
  held : ∀ i c r a, (p.threads i).holds = some (c, r, a) →
    (((p.registry.active a).client = c ∧ (p.registry.active a).runId = r) ∧ a < p.registry.fresh) ∧
      ((c, r) ∉ p.registry.terminated → p.registry.activeRuns c r = some a)
  ended : ∀ i c r a, (p.threads i).ends = some (c, r, a) → (c, r) ∈ p.registry.terminated

section
variable {p : Protocol} (h : AdmissionInv p)
include h

/-! ## Threads and runs -/

theorem AdmissionInv.setThread {i : Nat} {th : Thread}
    (hh : ∀ c r a, th.holds = some (c, r, a) →
      (((p.registry.active a).client = c ∧ (p.registry.active a).runId = r) ∧ a < p.registry.fresh) ∧
        ((c, r) ∉ p.registry.terminated → p.registry.activeRuns c r = some a))
    (he : ∀ c r a, th.ends = some (c, r, a) → (c, r) ∈ p.registry.terminated) :
    AdmissionInv (p.setThread i th) where
  keyed := h.keyed
  handled := h.handled
  opened := h.opened
  held := by
    intro j c r a hj
    by_cases hji : j = i
    · subst hji
      simp only [Protocol.setThread, Function.update_self] at hj
      exact hh c r a hj
    · simp only [Protocol.setThread, Function.update_of_ne hji] at hj
      exact h.held j c r a hj
  ended := by
    intro j c r a hj
    by_cases hji : j = i
    · subst hji
      simp only [Protocol.setThread, Function.update_self] at hj
      exact he c r a hj
    · simp only [Protocol.setThread, Function.update_of_ne hji] at hj
      exact h.ended j c r a hj

theorem AdmissionInv.setThread_none {i : Nat} {th : Thread} (hh : th.holds = none) (he : th.ends = none) :
    AdmissionInv (p.setThread i th) :=
  h.setThread (fun _ _ _ e => by rw [hh] at e; cases e) (fun _ _ _ e => by rw [he] at e; cases e)

theorem AdmissionInv.setRuns (runs : List Run) (torn : Nat → Bool) :
    AdmissionInv { p with runs := runs, torn := torn } :=
  ⟨h.keyed, h.handled, h.opened, h.held, h.ended⟩

/-! ## The registry -/

theorem AdmissionInv.setAdmission {a : Nat} {x : RunAdmission}
    (hx : x = .opened → ((p.registry.active a).client, (p.registry.active a).runId) ∉ p.registry.terminated ∧
      p.registry.activeRuns (p.registry.active a).client (p.registry.active a).runId = some a) :
    AdmissionInv (p.setRegistry (p.registry.setAdmission a x)) := by
  have hkey : ∀ b, ((p.registry.setAdmission a x).active b).client = (p.registry.active b).client ∧
      ((p.registry.setAdmission a x).active b).runId = (p.registry.active b).runId := by
    intro b
    rw [Registry.setAdmission_active]
    split
    · rename_i e; rw [e]; exact ⟨rfl, rfl⟩
    · exact ⟨rfl, rfl⟩
  refine ⟨?_, ?_, ?_, ?_, h.ended⟩
  · intro c r b hb
    simp only [Protocol.setRegistry, (hkey b).1, (hkey b).2]
    exact h.keyed c r b hb
  · intro run hrun
    simp only [Protocol.setRegistry, (hkey _).1, (hkey _).2]
    exact h.handled run hrun
  · intro b hb
    simp only [Protocol.setRegistry, (hkey b).1, (hkey b).2] at hb ⊢
    rw [Registry.setAdmission_active] at hb
    split at hb
    · rename_i e; rw [e]; exact hx hb
    · exact h.opened b hb
  · intro i c r b hi
    simp only [Protocol.setRegistry, (hkey b).1, (hkey b).2]
    exact h.held i c r b hi

theorem AdmissionInv.setGate (a : Nat) (x : Option Nat) :
    AdmissionInv (p.setRegistry (p.registry.setGate a x)) := by
  have hkey : ∀ b, ((p.registry.setGate a x).active b).client = (p.registry.active b).client ∧
      ((p.registry.setGate a x).active b).runId = (p.registry.active b).runId ∧
      ((p.registry.setGate a x).active b).admission = (p.registry.active b).admission := by
    intro b
    rw [Registry.setGate_active]
    split
    · rename_i e; rw [e]; exact ⟨rfl, rfl, rfl⟩
    · exact ⟨rfl, rfl, rfl⟩
  refine ⟨?_, ?_, ?_, ?_, h.ended⟩
  · intro c r b hb
    simp only [Protocol.setRegistry, (hkey b).1, (hkey b).2.1]
    exact h.keyed c r b hb
  · intro run hrun
    simp only [Protocol.setRegistry, (hkey _).1, (hkey _).2.1]
    exact h.handled run hrun
  · intro b hb
    simp only [Protocol.setRegistry, (hkey b).1, (hkey b).2.1, (hkey b).2.2] at hb ⊢
    exact h.opened b hb
  · intro i c r b hi
    simp only [Protocol.setRegistry, (hkey b).1, (hkey b).2.1]
    exact h.held i c r b hi

theorem AdmissionInv.releaseLock (a : Nat) : AdmissionInv (p.setRegistry (p.registry.releaseLock a)) := by
  refine ⟨?_, ?_, ?_, ?_, ?_⟩ <;>
    simp only [Protocol.setRegistry, Registry.releaseLock_activeRuns, Registry.releaseLock_client,
      Registry.releaseLock_runId, Registry.releaseLock_fresh, Registry.releaseLock_handles,
      Registry.releaseLock_admission, Registry.releaseLock_terminated]
  · exact h.keyed
  · exact h.handled
  · exact h.opened
  · exact h.held
  · exact h.ended

theorem AdmissionInv.releaseRunWriter {c : Nat} {r : RunId} (ht : (c, r) ∈ p.registry.terminated) :
    AdmissionInv (p.setRegistry (p.registry.releaseRunWriter c r)) := by
  have hother : ∀ d q, (d, q) ∉ p.registry.terminated → ¬ (d = c ∧ q = r) := by
    rintro d q hn ⟨rfl, rfl⟩; exact hn ht
  refine ⟨?_, ?_, ?_, ?_, ?_⟩ <;>
    simp only [Protocol.setRegistry, Registry.releaseRunWriter_client, Registry.releaseRunWriter_runId,
      Registry.releaseRunWriter_fresh, Registry.releaseRunWriter_handles,
      Registry.releaseRunWriter_admission, Registry.releaseRunWriter_terminated,
      Registry.releaseRunWriter_activeRuns]
  · intro d q b hb
    split at hb
    · cases hb
    · exact h.keyed d q b hb
  · exact h.handled
  · intro b hb
    obtain ⟨hn, hreg⟩ := h.opened b hb
    rw [if_neg (hother _ _ hn)]
    exact ⟨hn, hreg⟩
  · intro i d q b hi
    refine ⟨(h.held i d q b hi).1, fun hn => ?_⟩
    rw [if_neg (hother _ _ hn)]
    exact (h.held i d q b hi).2 hn
  · exact h.ended

theorem AdmissionInv.register {c : Nat} {r : RunId} (hnone : p.registry.activeRuns c r = none)
    (hn : (c, r) ∉ p.registry.terminated) : AdmissionInv (p.setRegistry (p.registry.register c r)) := by
  have hold : ∀ b, b < p.registry.fresh → (p.registry.register c r).active b = p.registry.active b := by
    intro b hb
    rw [Registry.register_active, if_neg (by omega)]
  have hfresh : (p.registry.register c r).fresh = p.registry.fresh + 1 := rfl
  refine ⟨?_, ?_, ?_, ?_, h.ended⟩ <;> simp only [Protocol.setRegistry, hfresh]
  · intro d q b hb
    rw [Registry.register_activeRuns] at hb
    split at hb
    · rename_i e
      cases hb
      rw [Registry.register_active, if_pos rfl]
      exact ⟨⟨e.1.symm, e.2.symm⟩, Nat.lt_succ_self _⟩
    · obtain ⟨hk, hlt⟩ := h.keyed d q b hb
      rw [hold b hlt]
      exact ⟨hk, Nat.lt_succ_of_lt hlt⟩
  · intro run hrun
    obtain ⟨hk, hlt⟩ := h.handled run hrun
    rw [hold _ hlt]
    exact ⟨hk, Nat.lt_succ_of_lt hlt⟩
  · intro b hb
    rw [Registry.register_activeRuns]
    rw [Registry.register_active] at hb ⊢
    split at hb
    · rename_i e
      rw [if_pos e, if_pos ⟨rfl, rfl⟩, e]
      exact ⟨hn, rfl⟩
    · rename_i e
      obtain ⟨hb1, hb2⟩ := h.opened b hb
      rw [if_neg e, if_neg]
      · exact ⟨hb1, hb2⟩
      · rintro ⟨e1, e2⟩
        rw [e1, e2, hnone] at hb2; cases hb2
  · intro i d q b hi
    obtain ⟨⟨hk, hlt⟩, hreg⟩ := h.held i d q b hi
    rw [hold b hlt]
    refine ⟨⟨hk, Nat.lt_succ_of_lt hlt⟩, fun ht => ?_⟩
    rw [Registry.register_activeRuns, if_neg]
    · exact hreg ht
    · rintro ⟨rfl, rfl⟩
      rw [hreg ht] at hnone; cases hnone

theorem AdmissionInv.markTerminal {c a : Nat} {r : RunId}
    (hk : (p.registry.active a).client = c ∧ (p.registry.active a).runId = r)
    (hreg : (c, r) ∉ p.registry.terminated → p.registry.activeRuns c r = some a) :
    AdmissionInv (p.setRegistry (p.registry.markTerminal c r a)) := by
  have hclosed := h.setAdmission (a := a) (x := .terminal) (fun e => by cases e)
  refine ⟨hclosed.keyed, hclosed.handled, ?_, ?_, ?_⟩
  · intro b hb
    obtain ⟨h1, h2⟩ := hclosed.opened b hb
    refine ⟨?_, h2⟩
    intro hmem
    rcases List.mem_cons.mp hmem with e | hmem
    · -- an open run of the client and run would be the one in the map
      have hne : b ≠ a := by
        rintro rfl
        have : ((p.registry.setAdmission b .terminal).active b).admission = .opened := hb
        rw [Registry.setAdmission_active, if_pos rfl] at this; cases this
      have hb' : (p.registry.active b).admission = .opened := by
        have : ((p.registry.setAdmission a .terminal).active b).admission = .opened := hb
        rwa [Registry.setAdmission_active, if_neg hne] at this
      obtain ⟨h3, h4⟩ := h.opened b hb'
      have hkey : ((p.registry.active b).client, (p.registry.active b).runId) = (c, r) := by
        have : (((p.registry.setAdmission a .terminal).active b).client,
          ((p.registry.setAdmission a .terminal).active b).runId) = (c, r) := e
        rwa [Registry.setAdmission_active, if_neg hne] at this
      obtain ⟨e1, e2⟩ := Prod.mk.inj hkey
      rw [e1, e2] at h3 h4
      rw [hreg h3] at h4
      exact hne (Option.some.inj h4).symm
    · exact h1 hmem
  · intro i d q b hi
    obtain ⟨h1, h2⟩ := hclosed.held i d q b hi
    exact ⟨h1, fun hn => h2 fun hmem => hn (List.mem_cons_of_mem _ hmem)⟩
  · intro i d q b hi
    exact List.mem_cons_of_mem _ (h.ended i d q b hi)

theorem AdmissionInv.runHandle (c : Nat) (r : RunId) :
    AdmissionInv (p.setRegistry (p.registry.runHandle c r)) := by
  have hfresh := p.registry.runHandle_fresh c r
  have hold : ∀ b, b < p.registry.fresh → (p.registry.runHandle c r).active b = p.registry.active b := by
    intro b hb
    rw [Registry.runHandle_active, if_neg (by omega)]
  refine ⟨?_, ?_, ?_, ?_, ?_⟩ <;>
    simp only [Protocol.setRegistry, Registry.runHandle_activeRuns, Registry.runHandle_terminated]
  · intro d q b hb
    obtain ⟨hk, hlt⟩ := h.keyed d q b hb
    rw [hold b hlt]
    exact ⟨hk, Nat.lt_of_lt_of_le hlt hfresh⟩
  · intro run hrun
    rcases (Registry.runHandle_handles _ _ _).mp hrun with hr | ⟨a, rfl, ha | ⟨ha, rfl⟩⟩
    · obtain ⟨hk, hlt⟩ := h.handled run hr
      rw [hold _ hlt]
      exact ⟨hk, Nat.lt_of_lt_of_le hlt hfresh⟩
    · obtain ⟨hk, hlt⟩ := h.keyed c r a ha
      dsimp only
      rw [hold _ hlt]
      exact ⟨hk, Nat.lt_of_lt_of_le hlt hfresh⟩
    · dsimp only
      rw [Registry.runHandle_active, if_pos ⟨ha, rfl⟩]
      refine ⟨⟨rfl, rfl⟩, ?_⟩
      unfold Registry.runHandle
      rw [ha]; exact Nat.lt_succ_self _
  · intro b hb
    rw [Registry.runHandle_active] at hb ⊢
    split at hb
    · cases hb
    · rename_i e
      rw [if_neg e]; exact h.opened b hb
  · intro i d q b hi
    obtain ⟨⟨hk, hlt⟩, hreg⟩ := h.held i d q b hi
    rw [hold b hlt]
    exact ⟨⟨hk, Nat.lt_of_lt_of_le hlt hfresh⟩, hreg⟩
  · exact h.ended

/-! ## Steps -/

theorem AdmissionInv.move {q : Protocol} {i : Nat} {l : ProtocolAct} (hl : StaysTerminal p l)
    (hm : ProtocolMove p i l q) : AdmissionInv q := by
  cases hm with
  | stay => exact h
  | returns | begin | absent | check | insert | undo | tear =>
    exact (h.setRuns _ _).setThread_none rfl rfl
  | share ha hth =>
    rename_i c r a th
    generalize hti : p.threads i = ti at hth
    cases hth with
    | finalize =>
      refine h.setThread (fun _ _ _ e => ?_) (fun _ _ _ e => by cases e)
      cases e; exact ⟨h.keyed c r a ha, fun _ => ha⟩
    | create | resume => exact h.setThread_none rfl rfl
  | register ha hlock hth =>
    rename_i c r th
    have hreg := h.register ha (hl.registers c r rfl)
    generalize hf : p.registry.fresh = f at hth
    generalize hti : p.threads i = ti at hth
    cases hth with
    | finalize =>
      have hnew : (p.registry.register c r).activeRuns c r = some f := by
        rw [Registry.register_activeRuns, if_pos ⟨rfl, rfl⟩, hf]
      refine hreg.setThread (fun _ _ _ e => ?_) (fun _ _ _ e => by cases e)
      cases e; exact ⟨hreg.keyed c r f hnew, fun _ => hnew⟩
    | create | resume => exact hreg.setThread_none rfl rfl
  | undoWriter => exact absurd rfl (hl.writers _ _)
  | undoLock => exact (h.releaseLock _).setThread_none rfl rfl
  | close => exact h.setAdmission (fun e => by cases e)
  | mark hi =>
    rename_i c r a target t hrun
    have hheld := h.held i c r a (by rw [hi]; rfl)
    refine (h.setRuns _ _).setThread (fun _ _ _ e => ?_) (fun _ _ _ e => by cases e)
    cases e; exact hheld
  | markTerminal hi hg =>
    rename_i c r a
    obtain ⟨⟨hk, -⟩, hreg⟩ := h.held i c r a (by rw [hi]; rfl)
    refine (h.markTerminal hk hreg).setThread (fun _ _ _ e => by cases e) (fun _ _ _ e => ?_)
    cases e; exact List.mem_cons_self ..
  | releaseLock hi =>
    rename_i c r a
    have hend := h.ended i c r a (by rw [hi]; rfl)
    refine (h.releaseLock a).setThread (fun _ _ _ e => by cases e) (fun _ _ _ e => ?_)
    cases e
    show _ ∈ (p.registry.releaseLock a).terminated
    rw [Registry.releaseLock_terminated]; exact hend
  | releaseWriter hi =>
    rename_i c r a
    exact (h.releaseRunWriter (h.ended i c r a (by rw [hi]; rfl))).setThread_none rfl rfl
  | reopen hi hg =>
    rename_i c r a
    obtain ⟨⟨⟨rfl, rfl⟩, -⟩, hreg⟩ := h.held i c r a (by rw [hi]; rfl)
    have hn := hl.reopens _ _ rfl
    exact (h.setAdmission fun _ => ⟨hn, hreg hn⟩).setThread_none rfl rfl
  | enter => exact (h.setGate _ _).setThread_none rfl rfl
  | leave => exact (h.setGate _ _).setThread_none rfl rfl
  | releaseAll => exact absurd rfl (hl.locks _)
  | handle => exact h.runHandle _ _

end

/-! ## The clients -/

/-- A call that takes run writers away from the map without having finished the
run: a `shutdown`, or a `create_run` that undoes its `acquire_run_writer`. -/
def Call.withdraws : Call → Bool
  | .shutdown _ _ => true
  | .createRun _ _ _ _ (.releaseWriter _ _) => true
  | _ => false

def Call.reopens : Call → Option (Nat × RunId)
  | .finalizeRun c r _ (.openAdmission _ _) => some (c, r)
  | _ => none

/-- The calls finish, fail, create and resume runs and log. -/
def FinishesAndLogs (s : World) : WorldAct → Prop
  | .go i _ => (s.calls i).withdraws = false
  | _ => True

/-- `acquire_run_writer` makes a new active run. -/
def World.registers (s : World) (i : Nat) (env : Env) (c : Nat) (r : RunId) : Prop :=
  (s.calls i).acquires = some (c, r) ∧ env.fails = false ∧ s.registry.activeRuns c r = none ∧
    s.registry.locks (lockFile r) = none

/-- No finalizer opens admission, and no `acquire_run_writer` makes a new active
run, for a run the client has marked terminal. -/
def LeavesTerminal (s : World) : WorldAct → Prop
  | .go i env => ∀ k ∈ s.registry.terminated, (s.calls i).reopens ≠ some k ∧ ¬ s.registers i env k.1 k.2
  | _ => True

instance (s : World) (i : Nat) (env : Env) (c : Nat) (r : RunId) : Decidable (s.registers i env c r) :=
  inferInstanceAs (Decidable (_ ∧ _ ∧ _ ∧ _))

instance (s : World) : ∀ act, Decidable (FinishesAndLogs s act)
  | .go _ _ => inferInstanceAs (Decidable (_ = false))
  | .start _ _ | .runHandle _ _ | .work _ _ => isTrue trivial

instance (s : World) : ∀ act, Decidable (LeavesTerminal s act)
  | .go i env => inferInstanceAs (Decidable (∀ k ∈ s.registry.terminated,
      (s.calls i).reopens ≠ some k ∧ ¬ s.registers i env k.1 k.2))
  | .start _ _ | .runHandle _ _ | .work _ _ => isTrue trivial

theorem staysTerminal_of_step {s : World} {i : Nat} {act : WorldAct} {l : ProtocolAct} {q : Protocol}
    (hf : FinishesAndLogs s act) (hk : LeavesTerminal s act) (hm : ProtocolMove s.protocol i l q)
    (ho : l.Of s i act) : StaysTerminal s.protocol l := by
  cases ho with
  | start | begins | handle | work => exact ⟨nofun, nofun, nofun, nofun⟩
  | go hby =>
    have hw : (s.calls i).withdraws = false := hf
    refine ⟨?_, ?_, ?_, ?_⟩
    · rintro c r rfl
      cases hm with
      | undoWriter hi =>
        obtain ⟨_, _, _, hc⟩ := thread_undoing (k := s.calls i) hi
        rw [hc] at hw; cases hw
    · rintro c rfl
      cases hm with
      | releaseAll hi =>
        obtain ⟨pc, hc⟩ := thread_tearing (k := s.calls i) hi
        rw [hc] at hw; cases hw
    · rintro c r rfl ht
      obtain ⟨target, a, e, hc⟩ := hby.reopens c r rfl
      exact (hk (c, r) ht).1 (by rw [hc]; rfl)
    · rintro c r rfl ht
      obtain ⟨hacq, hfail⟩ := hby.acquires c r rfl
      cases hm with
      | register ha hlock => exact (hk (c, r) ht).2 ⟨hacq, hfail, ha, hlock⟩

theorem admissionInv_init (projects : List Project) (runs : List Run) (capacity : Nat → Nat) :
    AdmissionInv (World.init projects runs capacity).protocol where
  keyed := nofun
  handled := nofun
  opened := nofun
  held := nofun
  ended := nofun

/-- Once a client has marked a run terminal, every `log_metric_at_step` through
a handle of the client on the run is refused, as long as no finalizer reopens
the run's admission and no call makes a new active run for it. -/
theorem terminal_stays_closed {projects : List Project} {runs : List Run} {capacity : Nat → Nat}
    {acts : List WorldAct} {s t : World}
    (h : exec World.step (World.init projects runs capacity) acts = some s)
    (hm : Meets World.step (fun s act => FinishesAndLogs s act ∧ LeavesTerminal s act)
      (World.init projects runs capacity) acts)
    {i : Nat} {run : NativeRun} {key : MetricKey} {n : Int} {v : F64} {env : Env}
    (hc : s.calls i = .logMetricAtStep run key n v .enter)
    (hterm : (run.client, run.runId) ∈ s.registry.terminated) (hs : s.step (.go i env) = some t) :
    t.calls i = .returned (.error (.runClosed run.runId)) := by
  have hinv : AdmissionInv s.protocol := by
    refine exec_inv World.step (I := fun s => AdmissionInv s.protocol) ?_ hm h
      (admissionInv_init projects runs capacity)
    intro s act t hkeep hst hi
    obtain ⟨j, l, hmove, hof⟩ := world_refines hst
    exact hi.move (staysTerminal_of_step hkeep.1 hkeep.2 hmove hof) hmove
  simp only [World.step, hc, World.callStep, World.logMetricAtStepStep] at hs
  split at hs
  · cases hs
  · rename_i hg
    simp only [Bool.or_eq_true, decide_eq_true_eq, not_or, not_not] at hg
    split at hs
    · -- the handle's active run is of the handle's client and run
      rename_i hopen
      obtain ⟨⟨hcl, hrun⟩, -⟩ := hinv.handled run hg.1
      have hn := (hinv.opened run.activeRun hopen).1
      rw [hcl, hrun] at hn
      exact absurd hterm hn
    · cases hs
      exact Function.update_self ..

/-! ## Two finalizers of one run -/

/-- Thread 0 creates the run and makes a handle. -/
def createActs : List WorldAct := List.flatten
  [[.start 0 (.createRun 0 "p" "n" "r")], List.replicate 6 (.go 0 {}), [.runHandle 0 "r"]]

def handleR : NativeRun := ⟨0, "r", 0⟩

/-- The run is finished, and then logged to. -/
def finishedRun : List WorldAct := List.flatten
  [createActs, [.start 1 (.finishRun 0 "r")], List.replicate 15 (.go 1 {}),
    [.start 2 (.logMetricAtStep handleR "k" 0 ⟨0⟩)]]

theorem terminal_stays_closed_run : ∃ s t,
    exec World.step (World.init [⟨"p", "p", 0⟩] [] fun _ => 1) finishedRun = some s ∧
      (0, "r") ∈ s.registry.terminated ∧ s.step (.go 2 {}) = some t ∧
      t.calls 2 = .returned (.error (.runClosed "r")) := by
  have hrun : ∃ s t, exec World.step (World.init [⟨"p", "p", 0⟩] [] fun _ => 1) finishedRun = some s ∧
      s.calls 2 = .logMetricAtStep handleR "k" 0 ⟨0⟩ .enter ∧ s.registry.terminated = [(0, "r")] ∧
      s.step (.go 2 {}) = some t := ⟨_, _, rfl, rfl, rfl, rfl⟩
  obtain ⟨s, t, h, hc, hterm, hs⟩ := hrun
  have hmem : (0, "r") ∈ s.registry.terminated := by rw [hterm]; exact List.mem_cons_self ..
  exact ⟨s, t, h, hmem, hs, terminal_stays_closed h (by decide) hc hmem hs⟩

/-- Two finalizers share the run's active run; the second one's update changes
no row, and it opens admission again after the first one has closed it for good. -/
def twoFinalizersRun : List WorldAct := List.flatten
  [createActs, [.start 1 (.finishRun 0 "r"), .start 2 (.failRun 0 "r")], List.replicate 4 (.go 1 {}),
    List.replicate 4 (.go 2 {}), List.replicate 11 (.go 1 {}), List.replicate 10 (.go 2 {}),
    [.start 3 (.logMetricAtStep handleR "k" 0 ⟨0⟩)]]

theorem second_finalizer_reopens : ¬ ∀ projects runs capacity acts s t,
    exec World.step (World.init projects runs capacity) acts = some s →
    Meets World.step FinishesAndLogs (World.init projects runs capacity) acts →
    ∀ i run key n v env, s.calls i = .logMetricAtStep run key n v .enter →
      (run.client, run.runId) ∈ s.registry.terminated → s.step (.go i env) = some t →
      t.calls i = .returned (.error (.runClosed run.runId)) := by
  intro hall
  have hrun : ∃ s t, exec World.step (World.init [⟨"p", "p", 0⟩] [] fun _ => 1) twoFinalizersRun = some s ∧
      s.calls 3 = .logMetricAtStep handleR "k" 0 ⟨0⟩ .enter ∧ s.registry.terminated = [(0, "r")] ∧
      s.step (.go 3 {}) = some t ∧ t.calls 3 = .logMetricAtStep handleR "k" 0 ⟨0⟩ .report :=
    ⟨_, _, rfl, rfl, rfl, rfl, rfl⟩
  obtain ⟨s, t, h, hc, hterm, hs, ht⟩ := hrun
  have hmem : (0, "r") ∈ s.registry.terminated := by rw [hterm]; exact List.mem_cons_self ..
  have := hall _ _ _ _ s t h (by decide) 3 handleR "k" 0 ⟨0⟩ {} hc hmem hs
  rw [ht] at this; cases this

end Pulseon
