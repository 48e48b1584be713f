import Pulseon.Interrupt
import Mathlib.Tactic.ByCases

/-!
# Interrupts and statements

A timer that finds its call not completed finds it in the connection's lock, so
no statement but the call's flush is executing then. Between that and the
interrupt the call can complete and unlock: the interrupt is its own as long as
no other statement is started in between.
-/

namespace Pulseon

/-! ## Stages -/

namespace FlushStage

def holds : FlushStage → Bool
  | .startRun | .endRun | .unlockRun _ | .install _ | .start _ | .flushing _ | .markCompleted _ _
    | .unlock _ _ => true
  | _ => false

def executes : FlushStage → Bool
  | .endRun | .flushing _ => true
  | _ => false

/-- `install_flush_interrupt` has returned. -/
def posts : FlushStage → Bool
  | .start _ | .flushing _ | .markCompleted _ _ | .unlock _ _ | .compareDeadline _ _ | .loadTimedOut _ _
  | .unlockFlush _ | .returned _ => true
  | _ => false

/-- A timer is installed and `mark_completed` is still to come. -/
def awaits : FlushStage → Bool
  | .start deadline | .flushing deadline => deadline.isSome
  | .markCompleted _ _ => true
  | _ => false

/-- The deadline of the timer, until the call marks itself completed. -/
def deadline : FlushStage → Option Instant
  | .start deadline | .flushing deadline => deadline
  | .markCompleted deadline _ => some deadline
  | _ => none

structure Keeps (g g' : FlushStage) : Prop where
  posts : g.posts = true → g'.posts = true
  awaits : g.awaits = true → g'.awaits = true

theorem holds_of_awaits {g : FlushStage} (h : g.awaits = true) : g.holds = true := by
  cases g with
  | start | flushing | markCompleted => rfl
  | _ => cases h

theorem flushing_of_executes {g : FlushStage} (he : g.executes = true) (hp : g.posts = true) :
    ∃ d, g = .flushing d := by
  cases g with
  | flushing d => exact ⟨d, rfl⟩
  | endRun => cases hp
  | _ => cases he

end FlushStage

/-- A timer for that deadline has not gone ahead of the clock. -/
def TimerStage.Due (deadline now : Instant) : TimerStage → Prop
  | .absent => False
  | .sleeping since remaining => deadline.sinceOrigin ≤ since.sinceOrigin + remaining.asNanos
  | .loadCompleted | .storeTimedOut | .interrupt => deadline ≤ now
  | .exited => True

namespace Flushing

/-! ## What a call does -/

/-- What a step of a call does to the connection and to the call's timer. -/
inductive FlushMove (s : Flushing) (i : Nat) (c : FlushCall) : Flushing → Prop
  | stay {g : FlushStage} (l : Option Nat) (hk : c.stage.Keeps g) (hh : g.holds = c.stage.holds)
      (he : g.executes = c.stage.executes) (hd : g.deadline = c.stage.deadline) : FlushMove s i c
      ((s.setFlushLock l).setCall i { c with stage := g })
  | lock {g : FlushStage} (hk : c.stage.Keeps g) (hfree : s.connection = none) (he : c.stage.executes = false)
      (hh' : g.holds = true) (he' : g.executes = false) (hd : g.deadline = c.stage.deadline) :
      FlushMove s i c ((s.setConnection (some i)).setCall i { c with stage := g })
  | unlock {g : FlushStage} (hk : c.stage.Keeps g) (hh : c.stage.holds = true) (he : c.stage.executes = false)
      (hh' : g.holds = false) (he' : g.executes = false) (hd : g.deadline = c.stage.deadline) :
      FlushMove s i c ((s.setConnection none).setCall i { c with stage := g })
  | start {g : FlushStage} (hk : c.stage.Keeps g) (hs : c.stage.startsStatement = true) (hh : c.stage.holds = true)
      (hh' : g.holds = true) (he' : g.executes = true) (hd : g.deadline = c.stage.deadline) :
      FlushMove s i c ((s.setExecuting (some i)).setCall i { c with stage := g })
  | stop {g : FlushStage} (hk : c.stage.Keeps g) (hh : c.stage.holds = true) (he : c.stage.executes = true)
      (hh' : g.holds = true) (he' : g.executes = false) (hd : g.deadline = c.stage.deadline) :
      FlushMove s i c ((s.setExecuting none).setCall i { c with stage := g })
  | install {g : FlushStage} (deadline : Instant) (hh : g.holds = c.stage.holds)
    (he : g.executes = c.stage.executes)
      (hp' : g.posts = true) (ha' : g.awaits = true) (hd : g.deadline = some deadline) :
      FlushMove s i c ((s.installed i (some deadline)).setCall i { c with stage := g })
  | complete {g : FlushStage} (hh : g.holds = c.stage.holds) (he : g.executes = c.stage.executes)
    (hp' : g.posts = true)
      (hd : g.deadline = none) :
      FlushMove s i c ((s.setInterrupt i { s.interrupts i with completed := true }).setCall i { c with stage := g })

section
variable {s t : Flushing} {i : Nat} {c : FlushCall} {env : FlushEnv}

theorem stay_next {g : FlushStage} (hk : c.stage.Keeps g) (hh : g.holds = c.stage.holds)
    (he : g.executes = c.stage.executes)
    (hd : g.deadline = c.stage.deadline) : FlushMove s i c (s.setCall i { c with stage := g }) :=
  .stay s.flushLock hk hh he hd

theorem flush_cases (h : s.flushStep i c env = some t) : FlushMove s i c t := by
  obtain ⟨runId, timeout, stage⟩ := c
  cases stage with
  | ensureWriteable =>
    cases h
    refine stay_next ⟨nofun, nofun⟩ ?_ ?_ ?_ <;> cases env.isShutdown <;> rfl
  | lockRun =>
    obtain ⟨hfree, he⟩ := Option.ite_none_left_eq_some.mp h
    rw [Option.not_isSome_iff_eq_none] at hfree
    cases he
    exact .lock ⟨nofun, nofun⟩ hfree rfl rfl rfl rfl
  | startRun =>
    cases h
    exact .start ⟨nofun, nofun⟩ rfl rfl rfl rfl rfl
  | endRun =>
    cases h
    exact .stop ⟨nofun, nofun⟩ rfl rfl rfl rfl rfl
  | unlockRun found =>
    cases h
    cases found with
    | error e => exact .unlock ⟨nofun, nofun⟩ rfl rfl rfl rfl rfl
    | ok status => cases status <;> exact .unlock ⟨nofun, nofun⟩ rfl rfl rfl rfl rfl
  | setDeadline =>
    cases h
    cases timeout with
    | none => exact stay_next ⟨nofun, nofun⟩ rfl rfl rfl
    | some timeout =>
      refine stay_next ⟨nofun, nofun⟩ ?_ ?_ ?_ <;> dsimp only <;> cases s.now.add timeout <;> rfl
  | tryLock deadline =>
    simp only [flushStep] at h
    cases hl : s.flushLock with
    | none =>
      simp only [hl, Option.some.injEq] at h
      exact h ▸ .stay (some i) ⟨nofun, nofun⟩ rfl rfl rfl
    | some j =>
      cases deadline with
      | none => simp [hl] at h
      | some deadline =>
        simp only [hl, Option.some.injEq] at h
        exact h ▸ stay_next ⟨nofun, nofun⟩ rfl rfl rfl
  | retry deadline =>
    cases h
    refine stay_next ⟨nofun, nofun⟩ ?_ ?_ ?_ <;> by_cases hd : deadline ≤ s.now
      <;> simp only [hd, ite_true, ite_false] <;> rfl
  | checkDeadline deadline =>
    cases h
    refine stay_next ⟨nofun, nofun⟩ ?_ ?_ ?_ <;> cases s.expired deadline <;> rfl
  | connection deadline =>
    obtain ⟨hfree, he⟩ := Option.ite_none_left_eq_some.mp h
    rw [Option.not_isSome_iff_eq_none] at hfree
    cases he
    exact .lock ⟨nofun, nofun⟩ hfree rfl rfl rfl rfl
  | install deadline =>
    cases h
    cases deadline with
    | none => exact stay_next ⟨nofun, nofun⟩ rfl rfl rfl
    | some deadline => exact .install deadline rfl rfl rfl rfl rfl
  | start deadline =>
    cases h
    exact .start ⟨fun _ => rfl, id⟩ rfl rfl rfl rfl rfl
  | flushing deadline =>
    cases h
    cases deadline with
    | none => exact .stop ⟨fun _ => rfl, nofun⟩ rfl rfl rfl rfl rfl
    | some deadline => exact .stop ⟨fun _ => rfl, fun _ => rfl⟩ rfl rfl rfl rfl rfl
  | markCompleted deadline fails =>
    cases h
    exact .complete rfl rfl rfl rfl
  | unlock deadline fails =>
    cases h
    exact .unlock ⟨fun _ => rfl, nofun⟩ rfl rfl rfl rfl rfl
  | compareDeadline deadline fails =>
    cases h
    refine stay_next ⟨fun _ => ?_, nofun⟩ ?_ ?_ ?_ <;> cases s.expired deadline <;> rfl
  | loadTimedOut deadline fails =>
    cases h
    exact stay_next ⟨fun _ => rfl, nofun⟩ rfl rfl rfl
  | unlockFlush result =>
    cases h
    exact .stay none ⟨fun _ => rfl, nofun⟩ rfl rfl rfl
  | returned | panicked => cases h

theorem starts_of_move (env : FlushEnv) (hc : s.calls i = some c) (hm : FlushMove s i c t) :
    t.executing = s.executing ∨ t.executing = none ∨ t.executing = some i ∧ s.starts (.go i env) = some i := by
  cases hm with
  | stop => exact Or.inr (Or.inl rfl)
  | start _ hs =>
    refine Or.inr (Or.inr ⟨rfl, ?_⟩)
    simp only [starts, hc, Option.bind_some, hs, ite_true]
  | _ => exact Or.inl rfl

theorem timer_of_move (hm : FlushMove s i c t) (j : Nat) (h : t.armed j) : s.armed j := by
  by_cases hj : j = i
  · subst hj
    cases hm with
    | install =>
      simp [armed, setCall, installed, setInterrupt] at h
    | complete => simpa [armed, setCall, setInterrupt] using h
    | _ => exact h
  · cases hm with
    | install | complete => simpa [armed, setCall, installed, setInterrupt, hj] using h
    | _ => exact h

end

/-! ## What a step does -/

inductive FlushingMove (s : Flushing) : FlushingAct → Flushing → Prop
  | tick {now : Instant} (hn : s.now ≤ now) : FlushingMove s (.tick now) { s with now := now }
  | lock {i : Nat} (hc : s.calls i = none) (hfree : s.connection = none) :
      FlushingMove s (.operate i .lock) (s.setConnection (some i))
  | startStatement {i : Nat} (hc : s.calls i = none) (hl : s.connection = some i) (hidle : s.executing = none) :
      FlushingMove s (.operate i .startStatement) (s.setExecuting (some i))
  | endStatement {i : Nat} (hc : s.calls i = none) (he : s.executing = some i) :
      FlushingMove s (.operate i .endStatement) (s.setExecuting none)
  | unlock {i : Nat} (hc : s.calls i = none) (hl : s.connection = some i) (hidle : s.executing = none) :
      FlushingMove s (.operate i .unlock) (s.setConnection none)
  | call {i : Nat} {runId : RunId} {timeout : Option Duration} (hc : s.calls i = none)
    (hfree : s.connection ≠ some i) :
      FlushingMove s (.call i runId timeout) (s.setCall i { runId := runId, timeout := timeout })
  | go {i : Nat} {env : FlushEnv} {c : FlushCall} {t : Flushing} (hc : s.calls i = some c)
    (hm : FlushMove s i c t) :
      FlushingMove s (.go i env) t
  /-- A timer goes on when its time has passed, and is armed by finding its call not completed. -/
  | timer {i : Nat} {x : FlushInterrupt} (hpresent : (s.interrupts i).timer ≠ .absent)
      (hcompleted : x.completed = (s.interrupts i).completed)
      (harmed : x.timer = .storeTimedOut ∨ x.timer = .interrupt → s.armed i ∨ x.completed = false)
      (hdue : ∀ deadline, (s.interrupts i).timer.Due deadline s.now → x.timer.Due deadline s.now) :
      FlushingMove s (.timer i) (s.setInterrupt i x)

section
variable {s t : Flushing} {i : Nat} {act : FlushingAct}

theorem operate_cases {operation : OperationStep} (hc : s.calls i = none)
    (hs : s.operateStep i operation = some t) :
    FlushingMove s (.operate i operation) t := by
  cases operation with
  | lock =>
    simp only [operateStep] at hs
    by_cases hf : s.connection.isSome = true
    · simp [hf] at hs
    · simp only [hf, Bool.false_eq_true, ite_false, Option.some.injEq] at hs
      exact hs ▸ .lock hc (Option.not_isSome_iff_eq_none.mp hf)
  | startStatement =>
    simp only [operateStep] at hs
    by_cases hf : s.connection = some i ∧ s.executing = none
    · rw [if_pos hf, Option.some.injEq] at hs
      exact hs ▸ .startStatement hc hf.1 hf.2
    · rw [if_neg hf] at hs
      cases hs
  | endStatement =>
    simp only [operateStep] at hs
    by_cases hf : s.executing = some i
    · rw [if_pos hf, Option.some.injEq] at hs
      exact hs ▸ .endStatement hc hf
    · rw [if_neg hf] at hs
      cases hs
  | unlock =>
    simp only [operateStep] at hs
    by_cases hf : s.connection = some i ∧ s.executing = none
    · rw [if_pos hf, Option.some.injEq] at hs
      exact hs ▸ .unlock hc hf.1 hf.2
    · rw [if_neg hf] at hs
      cases hs

theorem timer_cases (hs : s.timerStep i = some t) : FlushingMove s (.timer i) t := by
  unfold timerStep at hs
  cases hx : (s.interrupts i).timer with
  | absent | exited => simp [hx] at hs
  | sleeping since remaining =>
    simp only [hx] at hs
    by_cases hn : since.sinceOrigin + remaining.asNanos ≤ s.now.sinceOrigin
    · rw [if_pos hn, Option.some.injEq] at hs
      refine hs ▸ .timer (by rw [hx]; exact nofun) rfl nofun fun deadline hd => ?_
      rw [hx] at hd
      exact Instant.le_iff.mpr (Int.le_trans hd hn)
    · rw [if_neg hn] at hs
      cases hs
  | loadCompleted =>
    simp only [hx, Option.some.injEq] at hs
    refine hs ▸ .timer (by rw [hx]; exact nofun) rfl (fun e => Or.inr ?_) fun deadline hd => ?_
    · by_cases hc : (s.interrupts i).completed = true
      · simp [hc] at e
      · exact Bool.eq_false_iff.mpr hc
    · rw [hx] at hd
      cases (s.interrupts i).completed with
      | true => trivial
      | false => exact hd
  | storeTimedOut =>
    simp only [hx, Option.some.injEq] at hs
    refine hs ▸ .timer (by rw [hx]; exact nofun) rfl (fun _ => Or.inl (Or.inl hx)) fun deadline hd => ?_
    rw [hx] at hd
    exact hd
  | interrupt =>
    simp only [hx, Option.some.injEq] at hs
    exact hs ▸ .timer (by rw [hx]; exact nofun) rfl nofun fun _ _ => trivial

theorem step_cases (hs : s.step act = some t) : FlushingMove s act t := by
  cases act with
  | tick now =>
    simp only [Flushing.step] at hs
    by_cases hn : s.now ≤ now
    · rw [if_pos hn, Option.some.injEq] at hs
      exact hs ▸ .tick hn
    · rw [if_neg hn] at hs
      cases hs
  | operate i operation =>
    simp only [Flushing.step] at hs
    by_cases hc : (s.calls i).isSome = true
    · simp [hc] at hs
    · rw [if_neg hc] at hs
      exact operate_cases (Option.not_isSome_iff_eq_none.mp hc) hs
  | call i runId timeout =>
    simp only [Flushing.step] at hs
    by_cases hc : ((s.calls i).isSome || s.connection == some i) = true
    · rw [if_pos hc] at hs
      cases hs
    · rw [if_neg hc, Option.some.injEq] at hs
      simp only [Bool.or_eq_true, not_or, Option.not_isSome_iff_eq_none, beq_iff_eq] at hc
      exact hs ▸ .call hc.1 hc.2
  | go i env =>
    simp only [Flushing.step, Option.bind_eq_some_iff] at hs
    obtain ⟨c, hc, hs⟩ := hs
    exact .go hc (flush_cases hs)
  | timer i => exact timer_cases hs

end

/-! ## The invariant -/

/-- What a call at its stage has of the connection, and what its timer still waits for. -/
structure CallInv (s : Flushing) (i : Nat) (g : FlushStage) : Prop where
  holds : s.connection = some i ↔ g.holds = true
  executes : s.executing = some i ↔ g.executes = true
  posts : (s.interrupts i).timer ≠ .absent → g.posts = true
  awaits : (s.interrupts i).timer ≠ .absent → (s.interrupts i).completed = false → g.awaits = true

structure FlushingInv (s : Flushing) : Prop where
  calls : ∀ i c, s.calls i = some c → CallInv s i c.stage
  absent : ∀ i, s.calls i = none → (s.interrupts i).timer = .absent
  locked : ∀ i, s.executing = some i → s.connection = some i

theorem flushingInv_init (now : Instant) : FlushingInv (init now) where
  calls i c h := by simp [init] at h
  absent _ _ := rfl
  locked i h := by simp [init] at h

structure Apart (s t : Flushing) (j : Nat) : Prop where
  calls : t.calls j = s.calls j
  interrupts : t.interrupts j = s.interrupts j
  connection : t.connection = some j ↔ s.connection = some j
  executing : t.executing = some j ↔ s.executing = some j

section
variable {s t : Flushing} {i : Nat} {c : FlushCall}

theorem CallInv.apart {j : Nat} {g : FlushStage} (h : CallInv s j g) (ha : Apart s t j) : CallInv t j g where
  holds := ha.connection.trans h.holds
  executes := ha.executing.trans h.executes
  posts := by rw [ha.interrupts]; exact h.posts
  awaits := by rw [ha.interrupts]; exact h.awaits

theorem FlushingInv.of_apart (h : FlushingInv s) (ha : ∀ j, j ≠ i → Apart s t j)
    (hcalls : ∀ c, t.calls i = some c → CallInv t i c.stage)
    (habsent : t.calls i = none → (t.interrupts i).timer = .absent)
    (hlocked : t.executing = some i → t.connection = some i) :
    FlushingInv t where
  calls j c hc := by
    by_cases hj : j = i
    · subst hj
      exact hcalls c hc
    · rw [(ha j hj).calls] at hc
      exact (h.calls j c hc).apart (ha j hj)
  absent j hc := by
    by_cases hj : j = i
    · subst hj
      exact habsent hc
    · rw [(ha j hj).calls] at hc
      rw [(ha j hj).interrupts]
      exact h.absent j hc
  locked j he := by
    by_cases hj : j = i
    · subst hj
      exact hlocked he
    · exact (ha j hj).connection.mpr (h.locked j ((ha j hj).executing.mp he))

theorem FlushMove.apart (h : FlushingInv s) (hc : s.calls i = some c) (hm : FlushMove s i c t) :
    ∀ j, j ≠ i → Apart s t j := by
  have hinv := h.calls i c hc
  intro j hj
  have hij : i ≠ j := fun e => hj e.symm
  cases hm with
  | stay => exact ⟨Function.update_of_ne hj .., rfl, Iff.rfl, Iff.rfl⟩
  | lock _ hfree => exact ⟨Function.update_of_ne hj .., rfl, by simp [setCall, setConnection, hfree, hij], Iff.rfl⟩
  | unlock _ hh =>
    have := hinv.holds.mpr hh
    exact ⟨Function.update_of_ne hj .., rfl, by simp [setCall, setConnection, this, hij], Iff.rfl⟩
  | start _ hs hh =>
    have hn : s.executing ≠ some j := fun e => by
      have := h.locked j e
      rw [hinv.holds.mpr hh] at this
      exact hij (Option.some.inj this)
    exact ⟨Function.update_of_ne hj .., rfl, Iff.rfl, by simp [setCall, setExecuting, hn, hij]⟩
  | stop _ _ he =>
    have := hinv.executes.mpr he
    exact ⟨Function.update_of_ne hj .., rfl, Iff.rfl, by simp [setCall, setExecuting, this, hij]⟩
  | install | complete => exact ⟨Function.update_of_ne hj .., Function.update_of_ne hj .., Iff.rfl, Iff.rfl⟩

theorem setCall_self (s : Flushing) (i : Nat) (c : FlushCall) : (s.setCall i c).calls i = some c :=
  Function.update_self ..

theorem FlushMove.own (h : FlushingInv s) (hc : s.calls i = some c) (hm : FlushMove s i c t) :
    ∃ c', t.calls i = some c' ∧ CallInv t i c'.stage ∧ (t.executing = some i → t.connection = some i) := by
  have hinv := h.calls i c hc
  have hlocked := h.locked i
  cases hm with
  | stay _ hk hh he =>
    exact ⟨_, setCall_self .., ⟨hh ▸ hinv.holds, he ▸ hinv.executes, fun e => hk.posts (hinv.posts e),
      fun e e' => hk.awaits (hinv.awaits e e')⟩, hlocked⟩
  | lock hk _ he hh' he' =>
    have hn : ¬ s.executing = some i := fun e => by rw [hinv.executes.mp e] at he; cases he
    exact ⟨_, setCall_self .., ⟨iff_of_true rfl hh', by rw [he']; exact iff_of_false hn nofun,
      fun e => hk.posts (hinv.posts e), fun e e' => hk.awaits (hinv.awaits e e')⟩, fun _ => rfl⟩
  | unlock hk _ he hh' he' =>
    have hn : ¬ s.executing = some i := fun e => by rw [hinv.executes.mp e] at he; cases he
    exact ⟨_, setCall_self ..,
      ⟨by rw [hh']; exact iff_of_false nofun nofun, by rw [he']; exact iff_of_false hn nofun,
      fun e => hk.posts (hinv.posts e), fun e e' => hk.awaits (hinv.awaits e e')⟩, fun e => absurd e hn⟩
  | start hk _ hh hh' he' =>
    have hl := hinv.holds.mpr hh
    exact ⟨_, setCall_self .., ⟨iff_of_true hl hh', iff_of_true rfl he', fun e => hk.posts (hinv.posts e),
      fun e e' => hk.awaits (hinv.awaits e e')⟩, fun _ => hl⟩
  | stop hk hh _ hh' he' =>
    have hl := hinv.holds.mpr hh
    exact ⟨_, setCall_self .., ⟨iff_of_true hl hh', by rw [he']; exact iff_of_false nofun nofun,
      fun e => hk.posts (hinv.posts e), fun e e' => hk.awaits (hinv.awaits e e')⟩, nofun⟩
  | install _ hh he hp' ha' =>
    exact ⟨_, setCall_self .., ⟨hh ▸ hinv.holds, he ▸ hinv.executes, fun _ => hp', fun _ _ => ha'⟩, hlocked⟩
  | complete hh he hp' =>
    refine ⟨_, setCall_self .., ⟨hh ▸ hinv.holds, he ▸ hinv.executes, fun _ => hp', fun _ e => ?_⟩, hlocked⟩
    simp [setCall, setInterrupt] at e

theorem FlushingInv.flush (h : FlushingInv s) (hc : s.calls i = some c) (hm : FlushMove s i c t) :
    FlushingInv t := by
  obtain ⟨c', hc', hinv, hlocked⟩ := hm.own h hc
  refine h.of_apart (hm.apart h hc) (fun c'' e => ?_) (fun e => ?_) hlocked
  · rw [hc'] at e
    cases e
    exact hinv
  · rw [hc'] at e
    cases e

/-- An operation has no call, so only the holder of the lock and of the statement matter. -/
theorem FlushingInv.operate (h : FlushingInv s) (hn : s.calls i = none) (hcalls : t.calls = s.calls)
    (hinterrupts : t.interrupts = s.interrupts) (ha : ∀ j, j ≠ i → Apart s t j)
    (hlocked : t.executing = some i → t.connection = some i) : FlushingInv t := by
  refine h.of_apart ha (fun c hc => ?_) (fun _ => ?_) hlocked
  · rw [hcalls, hn] at hc
    cases hc
  · rw [hinterrupts]
    exact h.absent i hn

theorem FlushingInv.step {act : FlushingAct} (h : FlushingInv s) (hs : s.step act = some t) : FlushingInv t := by
  cases step_cases hs with
  | tick =>
    exact ⟨fun i c hc => (h.calls i c hc).apart ⟨rfl, rfl, Iff.rfl, Iff.rfl⟩, h.absent, h.locked⟩
  | @lock i hn hfree =>
    refine h.operate hn rfl rfl (fun j hj => ⟨rfl, rfl, ?_, Iff.rfl⟩) fun _ => rfl
    simp [setConnection, hfree, Ne.symm hj]
  | @startStatement i hn hl hidle =>
    refine h.operate hn rfl rfl (fun j hj => ⟨rfl, rfl, Iff.rfl, ?_⟩) fun _ => hl
    simp [setExecuting, hidle, Ne.symm hj]
  | @endStatement i hn he =>
    refine h.operate (i := i) hn rfl rfl (fun j hj => ⟨rfl, rfl, Iff.rfl, ?_⟩) nofun
    simp [setExecuting, he, Ne.symm hj]
  | @unlock i hn hl hidle =>
    refine h.operate hn rfl rfl (fun j hj => ⟨rfl, rfl, ?_, Iff.rfl⟩) fun e => absurd (hidle.symm.trans e) nofun
    simp [setConnection, hl, Ne.symm hj]
  | @call i runId timeout hn hfree =>
    have hidle : s.executing ≠ some i := fun e => hfree (h.locked i e)
    have hself := setCall_self s i { runId := runId, timeout := timeout }
    refine h.of_apart (i := i) (fun j hj => ⟨Function.update_of_ne hj .., rfl, Iff.rfl, Iff.rfl⟩) (fun c hc => ?_)
      (fun hc => ?_) (h.locked i)
    · rw [hself] at hc
      cases hc
      exact ⟨iff_of_false hfree nofun, iff_of_false hidle nofun, fun e => absurd (h.absent i hn) e,
        fun e => absurd (h.absent i hn) e⟩
    · rw [hself] at hc
      cases hc
  | go hc hm => exact h.flush hc hm
  | @timer i x hpresent hcompleted =>
    have hself : (s.setInterrupt i x).interrupts i = x := Function.update_self ..
    refine h.of_apart (i := i) (fun j hj => ⟨rfl, Function.update_of_ne hj .., Iff.rfl, Iff.rfl⟩) (fun c hc => ?_)
      (fun hc => absurd (h.absent i hc) hpresent) (h.locked i)
    have hinv := h.calls i c hc
    exact ⟨hinv.holds, hinv.executes, fun _ => hinv.posts hpresent,
      fun _ e => hinv.awaits hpresent (by rw [hself, hcompleted] at e; exact e)⟩

/-! ## What executes while a timer is armed -/

/-- Only the statement of an armed timer's call is executing. -/
def Aimed (s : Flushing) : Prop := ∀ i, s.armed i → ∀ j, s.executing = some j → j = i

theorem executing_step {act : FlushingAct} (hs : s.step act = some t) :
    t.executing = s.executing ∨ t.executing = none ∨ ∃ j, t.executing = some j ∧ s.starts act = some j := by
  cases step_cases hs with
  | startStatement hn hl hidle =>
    refine Or.inr (Or.inr ⟨_, rfl, ?_⟩)
    simp [starts, hn, hl, hidle]
  | endStatement => exact Or.inr (Or.inl rfl)
  | @go i env c _ hc hm =>
    rcases starts_of_move env hc hm with h | h | h
    · exact Or.inl h
    · exact Or.inr (Or.inl h)
    · exact Or.inr (Or.inr ⟨i, h⟩)
  | tick | lock | unlock | call | timer => exact Or.inl rfl

/-- A timer is armed by its own step, which finds the call not completed. -/
theorem armed_step {act : FlushingAct} (hs : s.step act = some t) (h : t.armed i) :
    s.armed i ∨ act = .timer i ∧ (s.interrupts i).timer ≠ .absent ∧ (s.interrupts i).completed = false := by
  cases step_cases hs with
  | go _ hm => exact Or.inl (timer_of_move hm i h)
  | @timer j x hpresent hcompleted harmed =>
    by_cases hj : i = j
    · subst hj
      have hself : (s.setInterrupt i x).interrupts i = x := Function.update_self ..
      unfold armed at h
      rw [hself] at h
      rcases harmed h with ha | hc
      · exact Or.inl ha
      · exact Or.inr ⟨rfl, hpresent, hcompleted ▸ hc⟩
    · have hother : (s.setInterrupt j x).interrupts i = s.interrupts i := Function.update_of_ne hj ..
      unfold armed at h ⊢
      rw [hother] at h
      exact Or.inl h
  | tick | lock | startStatement | endStatement | unlock | call => exact Or.inl h

theorem Aimed.step {act : FlushingAct} (ha : Aimed s) (h : FlushingInv s) (hc : s.StartsApart act)
    (hs : s.step act = some t) : Aimed t := by
  intro i hi j hj
  have hexec := executing_step hs
  rw [hj] at hexec
  rcases armed_step hs hi with hi | ⟨rfl, hpresent, hcompleted⟩
  · rcases hexec with he | he | ⟨k, he, hk⟩
    · exact ha i hi j he.symm
    · cases he
    · cases he
      exact hc i hi j hk
  · rcases hexec with he | he | ⟨k, -, hk⟩
    · -- the call has the lock, so what executes is the call's
      obtain ⟨c, hcall⟩ := Option.ne_none_iff_exists'.mp fun e => hpresent (h.absent i e)
      have hinv := h.calls i c hcall
      have hlock := hinv.holds.mpr (FlushStage.holds_of_awaits (hinv.awaits hpresent hcompleted))
      have := h.locked j he.symm
      rw [hlock] at this
      exact (Option.some.inj this).symm
    · cases he
    · cases hk

/-- Where only the call's statement can execute, it is that of `flush_metric_points`. -/
theorem Aimed.ownFlush (ha : Aimed s) (h : FlushingInv s) (act : FlushingAct) : s.OwnFlush act := by
  cases act with
  | timer i =>
    intro hi
    cases he : s.executing with
    | none => exact Or.inl rfl
    | some j =>
      obtain rfl := ha i (Or.inr hi) j he
      have hpresent : (s.interrupts j).timer ≠ .absent := by rw [hi]; exact nofun
      obtain ⟨c, hcall⟩ := Option.ne_none_iff_exists'.mp fun e => hpresent (h.absent j e)
      have hinv := h.calls j c hcall
      obtain ⟨d, hd⟩ := FlushStage.flushing_of_executes (hinv.executes.mp he) (hinv.posts hpresent)
      exact Or.inr ⟨he, c, d, hcall, hd⟩
  | tick | operate | call | go => trivial

end

/-! ## A start between the check and the interrupt -/

section
variable {s t : Flushing}

theorem starts_step {act : FlushingAct} {j : Nat} (h : s.starts act = some j) :
    ∃ t, s.step act = some t ∧ t.executing = some j ∧ t.interrupts = s.interrupts := by
  cases act with
  | operate i operation =>
    cases operation with
    | startStatement =>
      simp only [starts] at h
      by_cases hc : (s.calls i).isNone ∧ s.connection = some i ∧ s.executing = none
      · rw [if_pos hc] at h
        cases h
        refine ⟨s.setExecuting (some j), ?_, rfl, rfl⟩
        simp [Flushing.step, operateStep, Option.isNone_iff_eq_none.mp hc.1, hc.2]
      · rw [if_neg hc] at h
        cases h
    | lock | endStatement | unlock => cases h
  | go i env =>
    simp only [starts, Option.bind_eq_some_iff] at h
    obtain ⟨c, hc, h⟩ := h
    have hgo : s.step (.go i env) = s.flushStep i c env := by simp only [Flushing.step, hc, Option.bind_some]
    obtain ⟨runId, timeout, stage⟩ := c
    cases stage with
    | startRun | start =>
      cases h
      exact ⟨_, hgo.trans rfl, rfl, rfl⟩
    | _ => cases h
  | tick | call | timer => cases h

/-- An armed timer goes on to its interrupt, whatever is executing. -/
theorem interrupt_hits {i j : Nat} (harmed : s.armed i) (he : s.executing = some j)
    (hm : Meets step OwnFlush s [.timer i, .timer i]) : j = i := by
  have hown : ∀ {u : Flushing}, (u.interrupts i).timer = .interrupt → u.executing = some j →
    u.OwnFlush (.timer i) → j = i := by
    intro u hu hj ho
    rcases ho hu with hn | hf
    · rw [hj] at hn
      cases hn
    · exact Option.some.inj (hj.symm.trans hf.1)
  rcases harmed with hstore | hinterrupt
  · let t := s.setInterrupt i { s.interrupts i with timedOut := true, timer := .interrupt }
    have hs : s.step (.timer i) = some t := by simp only [Flushing.step, timerStep, hstore, t]
    have ht : t.interrupts i = { s.interrupts i with timedOut := true, timer := .interrupt } :=
      Function.update_self ..
    exact hown (u := t) (by rw [ht]) he (hm.2 t hs).1
  · exact hown hinterrupt he hm.1

/-- If no timer's interrupt can follow a part of the run into another's statement,
no statement was started while a timer was armed. -/
theorem startsApart_of_interrupts {acts : List FlushingAct}
    (h : ∀ bs, bs <+: acts → ∀ i, Meets step OwnFlush s (bs ++ [.timer i, .timer i])) :
    Meets step StartsApart s acts := by
  induction acts generalizing s with
  | nil => trivial
  | cons act acts ih =>
    refine ⟨fun i hi j hj => ?_, fun t ht => ih fun bs hb i => ?_⟩
    · obtain ⟨t, ht, he, hint⟩ := starts_step hj
      have hm := (h [act] ⟨acts, rfl⟩ i).2 t ht
      refine interrupt_hits ?_ he hm
      unfold armed
      rw [hint]
      exact hi
    · exact (h (act :: bs) (List.cons_prefix_cons.mpr ⟨rfl, hb⟩) i).2 t ht

end

/-! ## No interrupt before the deadline -/

/-- Until a call marks itself completed, its timer is for the deadline at its stage. -/
def Due (s : Flushing) : Prop :=
  ∀ i c deadline, s.calls i = some c → c.stage.deadline = some deadline → (s.interrupts i).timer.Due deadline s.now

section
variable {s t : Flushing} {i : Nat}

theorem due_tick {timer : TimerStage} {deadline now later : Instant} (hn : now ≤ later)
    (h : timer.Due deadline now) :
    timer.Due deadline later := by
  cases timer with
  | loadCompleted | storeTimedOut | interrupt =>
    rw [Instant.le_iff] at hn
    exact Instant.le_iff.mpr (Int.le_trans (Instant.le_iff.mp h) hn)
  | absent | sleeping | exited => exact h

theorem due_installed (i : Nat) (deadline : Instant) :
    ((s.installed i (some deadline)).interrupts i).timer.Due deadline s.now := by
  have hself : (s.installed i (some deadline)).interrupts i =
      { timer := .sleeping s.now (deadline.saturatingDurationSince s.now) } := Function.update_self ..
  rw [hself]
  show deadline.sinceOrigin ≤ s.now.sinceOrigin + _
  rw [Instant.asNanos_saturatingDurationSince]
  omega

theorem Due.flush {c : FlushCall} (h : Due s) (hc : s.calls i = some c) (hm : FlushMove s i c t) : Due t := by
  intro j c' deadline hc' hd'
  by_cases hj : j = i
  · subst hj
    cases hm with
    | stay _ _ _ _ hd | lock _ _ _ _ _ hd | unlock _ _ _ _ _ hd | start _ _ _ _ _ hd | stop _ _ _ _ _ hd =>
      rw [setCall_self] at hc'
      cases hc'
      exact h j c deadline hc (hd.symm.trans hd')
    | install deadline' _ _ _ _ hd =>
      rw [setCall_self] at hc'
      cases hc'
      rw [hd] at hd'
      cases hd'
      exact due_installed j deadline
    | complete _ _ _ hd =>
      rw [setCall_self] at hc'
      cases hc'
      rw [hd] at hd'
      cases hd'
  · have hcall : t.calls j = s.calls j := by cases hm <;> exact Function.update_of_ne hj ..
    have htimer : t.interrupts j = s.interrupts j ∧ t.now = s.now := by
      cases hm with
      | install | complete => exact ⟨Function.update_of_ne hj .., rfl⟩
      | _ => exact ⟨rfl, rfl⟩
    rw [htimer.1, htimer.2]
    exact h j c' deadline (hcall ▸ hc') hd'

theorem Due.step {act : FlushingAct} (h : Due s) (hs : s.step act = some t) : Due t := by
  cases step_cases hs with
  | tick hn => exact fun i c deadline hc hd => due_tick hn (h i c deadline hc hd)
  | lock | startStatement | endStatement | unlock => exact h
  | @call i =>
    intro j c deadline hc hd
    by_cases hj : j = i
    · subst hj
      rw [setCall_self] at hc
      cases hc
      cases hd
    · exact h j c deadline ((Function.update_of_ne hj ..).symm.trans hc) hd
  | go hc hm => exact h.flush hc hm
  | @timer i x _ _ _ hdue =>
    intro j c deadline hc hd
    by_cases hj : j = i
    · subst hj
      have hself : (s.setInterrupt j x).interrupts j = x := Function.update_self ..
      rw [hself]
      exact hdue deadline (h j c deadline hc hd)
    · have hother : (s.setInterrupt i x).interrupts j = s.interrupts j := Function.update_of_ne hj ..
      rw [hother]
      exact h j c deadline hc hd

end

end Flushing

open Flushing in
/-- A flush is interrupted by its timer only when its deadline has passed. -/
theorem interrupt_after_deadline {now : Instant} {acts : List FlushingAct} {s : Flushing}
    (h : exec Flushing.step (Flushing.init now) acts = some s) {i : Nat}
    (htimer : (s.interrupts i).timer = .interrupt)
    {c : FlushCall} {deadline : Instant} (hc : s.calls i = some c) (hd : c.stage = .flushing (some deadline)) :
    deadline ≤ s.now := by
  have hdue : Due s := exec_inv_all Flushing.step (fun _ _ _ hs hi => hi.step hs) h fun i c d hc => by
    simp [Flushing.init] at hc
  have := hdue i c deadline hc (by rw [hd]; rfl)
  rwa [htimer] at this

open Flushing in
/-- As long as no statement but the call's is started between a timer's check and
its interrupt, every interrupt is delivered while the call's flush or nothing is
executing. A run with such a start has a beginning after which the timer's
interrupt is delivered while another's statement is executing. -/
theorem interrupts_own_flush (now : Instant) (acts : List FlushingAct) :
    (Meets Flushing.step StartsApart (Flushing.init now) acts → Meets Flushing.step OwnFlush
      (Flushing.init now) acts) ∧
      (¬ Meets Flushing.step StartsApart (Flushing.init now) acts →
        ∃ bs, bs <+: acts ∧ ∃ i, ¬ Meets Flushing.step OwnFlush (Flushing.init now)
          (bs ++ [.timer i, .timer i])) := by
  constructor
  · refine fun hm => meets_of_inv Flushing.step (I := fun s => FlushingInv s ∧ Aimed s) ?_ ?_ hm
      ⟨flushingInv_init now, fun i hi => ?_⟩
    · exact fun s act t hc hs hi => ⟨hi.1.step hs, hi.2.step hi.1 hc hs⟩
    · exact fun s act hi _ => hi.2.ownFlush hi.1 act
    · rcases hi with hi | hi <;> cases hi
  · intro hn
    by_contra hall
    push Not at hall
    exact hn (startsApart_of_interrupts hall)

def origin : Instant := .ofSecs 0 (by decide)

/-- Call 0 gets to its flush with a timeout of a second, which passes. -/
def timedFlush : List FlushingAct := List.flatten
  [[.call 0 "r" (some (.fromSecs 1 (by decide)))], List.replicate 11 (.go 0 {}),
    [.tick (.ofSecs 1 (by decide)), .timer 0]]

/-- The timer finds the flush still executing. -/
def ownInterrupt : List FlushingAct := timedFlush ++ [.timer 0, .timer 0]

/-- The flush ends before the timer loads `completed`, and thread 1 starts a
statement before the timer interrupts. -/
def lateInterrupt : List FlushingAct := timedFlush ++
  [.go 0 { fails := true }, .timer 0, .go 0 {}, .go 0 {}, .operate 1 .lock, .operate 1 .startStatement, .timer 0]

def FlushingAct.byZero : FlushingAct → Bool
  | .tick _ => true
  | .operate i _ | .call i _ _ | .go i _ | .timer i => i == 0

namespace Flushing

theorem starts_byZero {s : Flushing} {act : FlushingAct} {j : Nat} (hact : act.byZero = true)
    (h : s.starts act = some j) :
    j = 0 := by
  cases act with
  | operate i operation =>
    cases operation with
    | startStatement =>
      simp only [starts, Option.ite_none_right_eq_some, Option.some.injEq] at h
      exact h.2.symm.trans (beq_iff_eq.mp hact)
    | lock | endStatement | unlock => cases h
  | go i env =>
    simp only [starts, Option.bind_eq_some_iff, Option.ite_none_right_eq_some, Option.some.injEq] at h
    obtain ⟨c, -, -, h⟩ := h
    exact h.symm.trans (beq_iff_eq.mp hact)
  | tick | call | timer => cases h

/-- Alone on the connection, a call and its timer start nothing apart. -/
theorem startsApart_alone {now : Instant} {acts : List FlushingAct} (h : ∀ act ∈ acts, act.byZero = true) :
    Meets Flushing.step StartsApart (Flushing.init now) acts := by
  refine meets_of_inv Flushing.step (C := fun _ act => act.byZero = true)
    (I := fun s => ∀ i, s.armed i → i = 0) ?_ ?_ (meets_of_forall Flushing.step (fun _ => h) _) ?_
  · intro s act t hact hs hi i ha
    rcases armed_step hs ha with ha | ⟨rfl, -⟩
    · exact hi i ha
    · exact beq_iff_eq.mp hact
  · intro s act hi hact i ha j hj
    exact (starts_byZero hact hj).trans (hi i ha).symm
  · intro i ha
    rcases ha with ha | ha <;> cases ha

end Flushing

open Flushing in
theorem interrupts_own_flush_delivered : ∃ t, exec Flushing.step (Flushing.init origin) ownInterrupt = some t ∧
    (t.interrupts 0).timer = .interrupt ∧ t.executing = some 0 ∧
    Meets Flushing.step OwnFlush (Flushing.init origin) (ownInterrupt ++ [.timer 0]) :=
  ⟨_, rfl, rfl, rfl, (interrupts_own_flush origin _).1 (startsApart_alone (by decide))⟩

open Flushing in
theorem interrupt_after_deadline_delivered : ∃ t, exec Flushing.step (Flushing.init origin) ownInterrupt = some t ∧
    (t.interrupts 0).timer = .interrupt ∧ Instant.ofSecs 1 (by decide) ≤ t.now := by
  obtain ⟨t, c, h, htimer, hc, hd⟩ : ∃ t c, exec Flushing.step (Flushing.init origin) ownInterrupt = some t ∧
      (t.interrupts 0).timer = .interrupt ∧ t.calls 0 = some c ∧
      c.stage = .flushing (some (.ofSecs 1 (by decide))) := ⟨_, _, rfl, rfl, rfl, rfl⟩
  exact ⟨t, h, htimer, interrupt_after_deadline h htimer hc hd⟩

open Flushing in
theorem interrupt_hits_other : ¬ ∀ now acts, Meets Flushing.step OwnFlush (Flushing.init now) acts := by
  intro hall
  obtain ⟨t, h, htimer, hexec⟩ : ∃ t, exec Flushing.step (Flushing.init origin) lateInterrupt = some t ∧
      (t.interrupts 0).timer = .interrupt ∧ t.executing = some 1 := ⟨_, rfl, rfl, rfl⟩
  have hm := hall origin (lateInterrupt ++ [.timer 0])
  rcases ((meets_append Flushing.step).mp hm).2 t h |>.1 htimer with hn | hf
  · rw [hexec] at hn
    cases hn
  · cases hexec.symm.trans hf.1

end Pulseon
