import Pulseon.World
import Pulseon.Steps
import Pulseon.Durations

/-!
# Timeouts

The calls of the Python binding that take a timeout in seconds. The binding
checks the number and makes a `Duration` of it; `drain_through` and
`flush_run_data` add that to the current instant. The steps are those of the
world, with a clock that decides which deadlines have passed.
-/

namespace Pulseon

structure InvalidConfigurationError where
  message : String
deriving DecidableEq, Repr

/-- `none` is a panic. -/
def durationFromSeconds (name : String) (seconds : F64) : Option (Except InvalidConfigurationError Duration) :=
  if seconds.lt ⟨0⟩ || !seconds.isFinite then
    some (.error ⟨name ++ " must be a finite non-negative number"⟩)
  else (Duration.fromSecsF64 seconds).map .ok

/-- What the methods of the binding call their timeouts in errors. -/
def Request.timeoutName : Request → Option String
  | .finishRun _ _ => some "finish_run timeout"
  | .failRun _ _ => some "fail_run timeout"
  | .flushRunData _ _ => some "flush timeout"
  | .shutdown _ => some "shutdown timeout"
  | _ => none

/-- The call is in `drain_through`, or in `flush_run_data` on a run that is not
running: where `Instant::now() + timeout` is computed. -/
def Call.setsDeadline : Call → Bool
  | .finalizeRun _ _ _ (.drain _ (.load _ _)) => true
  | .shutdown _ (.reporter (.drain (.load _ _))) => true
  | .flushRunData _ _ .flush => true
  | _ => false

/-- A world with a clock. A call has the timeout it was given and the deadline
computed from it; `refused` are the errors the binding has returned itself. -/
structure Timed where
  world : World
  now : Instant
  timeouts : Nat → Option Duration := fun _ => none
  deadlines : Nat → Option Instant := fun _ => none
  panicked : Nat → Bool := fun _ => false
  refused : Nat → Option InvalidConfigurationError := fun _ => none

inductive TimedAct
  | tick (now : Instant)
  | call (i : Nat) (request : Request) (timeout : Option F64)
  | go (i : Nat) (env : Env)
  | runHandle (client : Nat) (runId : RunId)
  | work (client : Nat) (act : WorkerAct)

namespace Timed
variable (s : Timed)

def init (world : World) (now : Instant) : Timed := { world := world, now := now }

def setWorld (w : World) : Timed := { s with world := w }

def panics (i : Nat) : Timed := { s with panicked := Function.update s.panicked i true }

def taken (i : Nat) : Bool := (s.world.calls i).busy || s.panicked i

def start (i : Nat) (request : Request) (timeout : Option Duration) : Option Timed :=
  (s.world.step (.start i request)).map fun w =>
    { s with
      world := w
      timeouts := Function.update s.timeouts i timeout
      deadlines := Function.update s.deadlines i none
      refused := Function.update s.refused i none }

def call (i : Nat) (request : Request) : Option F64 → Option Timed
  | none => s.start i request none
  | some seconds =>
    match request.timeoutName with
    | none => none
    | some name =>
      match durationFromSeconds name seconds with
      | none => some (s.panics i)
      | some (.error e) => some { s with refused := Function.update s.refused i (some e) }
      | some (.ok timeout) => s.start i request (some timeout)

/-- The timeout of a call that is about to compute its deadline. -/
def pending (i : Nat) : Option Duration :=
  if (s.world.calls i).setsDeadline && (s.deadlines i).isNone then s.timeouts i else none

/-- `Instant::now() + timeout` -/
def setDeadline (i : Nat) (timeout : Duration) : Timed :=
  match s.now.add timeout with
  | none => s.panics i
  | some deadline => { s with deadlines := Function.update s.deadlines i (some deadline) }

/-- `deadline.is_some_and(|deadline| Instant::now() >= deadline)` -/
def expired (i : Nat) : Bool := (s.deadlines i).any fun deadline => decide (deadline ≤ s.now)

def step : TimedAct → Option Timed
  | .tick now => if s.now ≤ now then some { s with now := now } else none
  | .call i request timeout => if s.taken i then none else s.call i request timeout
  | .go i env =>
    if s.panicked i then none
    else match s.pending i with
      | some timeout => some (s.setDeadline i timeout)
      | none => (s.world.step (.go i { env with expired := s.expired i })).map s.setWorld
  | .runHandle client runId => (s.world.step (.runHandle client runId)).map s.setWorld
  | .work client act => (s.world.step (.work client act)).map s.setWorld

/-- No call has panicked in converting its timeout or in computing its deadline. -/
def NoPanic : Prop := ∀ i, s.panicked i = false

/-- A number of seconds that the binding accepts is below two to the power of 64,
and the clock reaches the deadline that is computed from it. -/
def TimeoutFits : TimedAct → Prop
  | .call i request (some seconds) =>
    s.taken i = false → request.timeoutName.isSome = true → seconds.isFinite = true → 0 ≤ seconds.value →
      seconds.value < 2 ^ 64
  | .go i _ => ∀ timeout, s.panicked i = false → s.pending i = some timeout →
      s.now.sinceOrigin + timeout.asNanos < 0x8000000000000000 * nanosPerSec
  | _ => True

inductive Move : TimedAct → Timed → Prop
  | tick {now : Instant} (h : s.now ≤ now) : Move (.tick now) { s with now := now }
  | refuse {i : Nat} {request : Request} {seconds : F64} {name : String} {e : InvalidConfigurationError}
    (hname : request.timeoutName = some name)
      (h : durationFromSeconds name seconds = some (.error e)) :
      Move (.call i request (some seconds)) { s with refused := Function.update s.refused i (some e) }
  | convertPanics {i : Nat} {request : Request} {seconds : F64} {name : String} (ht : s.taken i = false)
      (hname : request.timeoutName = some name) (h : durationFromSeconds name seconds = none) :
      Move (.call i request (some seconds)) (s.panics i)
  | start {i : Nat} {request : Request} {t : Timed} (h : s.start i request none = some t) : Move
    (.call i request none) t
  | convert {i : Nat} {request : Request} {seconds : F64} {name : String} {timeout : Duration} {t : Timed}
      (hname : request.timeoutName = some name) (h : durationFromSeconds name seconds = some (.ok timeout))
      (hs : s.start i request (some timeout) = some t) : Move (.call i request (some seconds)) t
  | deadline {i : Nat} {env : Env} {timeout : Duration} (hp : s.panicked i = false)
    (hd : s.pending i = some timeout) :
      Move (.go i env) (s.setDeadline i timeout)
  | go {i : Nat} {env : Env} {w : World} (hd : s.pending i = none)
      (h : s.world.step (.go i { env with expired := s.expired i }) = some w) : Move (.go i env) (s.setWorld w)
  | runHandle {client : Nat} {runId : RunId} {w : World} (h : s.world.step (.runHandle client runId) = some w) :
      Move (.runHandle client runId) (s.setWorld w)
  | work {client : Nat} {act : WorkerAct} {w : World} (h : s.world.step (.work client act) = some w) :
      Move (.work client act) (s.setWorld w)

section
variable {s} {t : Timed} {act : TimedAct}

theorem call_cases {i : Nat} {request : Request} {timeout : Option F64} (ht : s.taken i = false)
    (h : s.call i request timeout = some t) : s.Move (.call i request timeout) t := by
  unfold call at h
  cases timeout with
  | none => exact .start h
  | some seconds =>
    cases hname : request.timeoutName with
    | none => simp [hname] at h
    | some name =>
      simp only [hname] at h
      cases hd : durationFromSeconds name seconds with
      | none =>
        simp only [hd, Option.some.injEq] at h
        exact h ▸ .convertPanics ht hname hd
      | some result =>
        simp only [hd] at h
        cases result with
        | error e => exact Option.some.inj h ▸ .refuse hname hd
        | ok timeout => exact .convert hname hd h

theorem go_cases {i : Nat} {env : Env} (h : s.step (.go i env) = some t) : s.Move (.go i env) t := by
  unfold step at h
  by_cases hp : s.panicked i = true
  · simp [hp] at h
  · simp only [hp, Bool.false_eq_true, ite_false] at h
    cases hd : s.pending i with
    | some timeout =>
      simp only [hd, Option.some.injEq] at h
      exact h ▸ .deadline (Bool.eq_false_iff.mpr hp) hd
    | none =>
      simp only [hd] at h
      obtain ⟨w, hw, rfl⟩ := Option.map_eq_some_iff.mp h
      exact .go hd hw

theorem step_cases (h : s.step act = some t) : s.Move act t := by
  cases act with
  | tick now =>
    simp only [step] at h
    by_cases hn : s.now ≤ now
    · rw [if_pos hn] at h
      exact Option.some.inj h ▸ .tick hn
    · rw [if_neg hn] at h
      cases h
  | call i request timeout =>
    unfold step at h
    by_cases ht : s.taken i = true
    · simp [ht] at h
    · simp only [ht, Bool.false_eq_true, ite_false] at h
      exact call_cases (Bool.eq_false_iff.mpr ht) h
  | go i env => exact go_cases h
  | runHandle client runId =>
    simp only [step, Option.map_eq_some_iff] at h
    obtain ⟨w, hw, rfl⟩ := h
    exact .runHandle hw
  | work client act =>
    simp only [step, Option.map_eq_some_iff] at h
    obtain ⟨w, hw, rfl⟩ := h
    exact .work hw

/-! ## The steps of the world -/

theorem start_world {i : Nat} {request : Request} {timeout : Option Duration}
    (h : s.start i request timeout = some t) :
    s.world.step (.start i request) = some t.world ∧ t.panicked = s.panicked := by
  obtain ⟨w, hw, rfl⟩ := Option.map_eq_some_iff.mp h
  exact ⟨hw, rfl⟩

theorem setDeadline_world (i : Nat) (timeout : Duration) : (s.setDeadline i timeout).world = s.world := by
  unfold setDeadline
  cases s.now.add timeout <;> rfl

/-- Without the clock a step is one of the world or none. -/
theorem timed_refines (h : s.step act = some t) : t.world = s.world ∨ ∃ act', s.world.step act' = some t.world := by
  cases step_cases h with
  | tick | refuse | convertPanics => exact Or.inl rfl
  | start hs => exact Or.inr ⟨_, (start_world hs).1⟩
  | convert _ _ hs => exact Or.inr ⟨_, (start_world hs).1⟩
  | deadline => exact Or.inl (setDeadline_world _ _)
  | go _ hw => exact Or.inr ⟨_, hw⟩
  | runHandle hw => exact Or.inr ⟨_, hw⟩
  | work hw => exact Or.inr ⟨_, hw⟩

/-- The world of a run with timeouts is one that the calls reach without them. -/
theorem timed_run {acts : List TimedAct} (h : exec step s acts = some t) :
    ∃ acts', exec World.step s.world acts' = some t.world := by
  induction acts generalizing s with
  | nil =>
    cases h
    exact ⟨[], rfl⟩
  | cons act acts ih =>
    obtain ⟨u, hu, hrest⟩ := (exec_cons step).mp h
    obtain ⟨acts', hacts⟩ := ih hrest
    rcases timed_refines hu with he | ⟨act', ha⟩
    · exact ⟨acts', he ▸ hacts⟩
    · exact ⟨act' :: acts', (exec_cons World.step).mpr ⟨_, ha, hacts⟩⟩

/-! ## Panics -/

theorem durationFromSeconds_cases (name : String) (seconds : F64) :
    seconds.isFinite = true ∧ 0 ≤ seconds.value ∧
        durationFromSeconds name seconds = (Duration.fromSecsF64 seconds).map .ok ∨
      ¬ (seconds.isFinite = true ∧ 0 ≤ seconds.value) ∧
        ∃ e, durationFromSeconds name seconds = some (.error e) := by
  unfold durationFromSeconds
  by_cases hf : seconds.isFinite = true
  · by_cases hlt : seconds.lt ⟨0⟩ = true
    · have := (Duration.lt_zero_iff hf).mp hlt
      exact Or.inr ⟨fun hn => not_le.mpr this hn.2, _, by rw [hlt]; rfl⟩
    · have := not_lt.mp ((Duration.lt_zero_iff hf).not.mp hlt)
      exact Or.inl ⟨hf, this, by rw [Bool.eq_false_iff.mpr hlt, hf]; rfl⟩
  · exact Or.inr ⟨fun hn => hf hn.1, _, by rw [Bool.eq_false_iff.mpr hf, Bool.not_false, Bool.or_true]; rfl⟩

theorem noPanic_panics (i : Nat) : ¬ (s.panics i).NoPanic := by
  intro h
  have := h i
  simp [panics] at this

theorem noPanic_setDeadline (h : s.NoPanic) (i : Nat) (timeout : Duration) :
    (s.setDeadline i timeout).NoPanic ↔ s.now.sinceOrigin + timeout.asNanos < 0x8000000000000000 * nanosPerSec := by
  rw [← Instant.add_isSome]
  unfold setDeadline
  cases s.now.add timeout with
  | none => simpa using noPanic_panics i
  | some deadline => exact iff_of_true h rfl

theorem noPanic_step (hs : s.step act = some t) (h : s.NoPanic) : t.NoPanic ↔ s.TimeoutFits act := by
  cases step_cases hs with
  | tick => exact iff_of_true h trivial
  | @refuse i request seconds name e hname he =>
    refine iff_of_true h fun _ _ hf hn => ?_
    rcases durationFromSeconds_cases name seconds with ⟨-, -, hok⟩ | ⟨hno, -⟩
    · rw [hok] at he
      cases hd : Duration.fromSecsF64 seconds <;> simp [hd] at he
    · exact absurd ⟨hf, hn⟩ hno
  | @convertPanics i request seconds name ht hname he =>
    refine iff_of_false (noPanic_panics i) fun hfits => ?_
    rcases durationFromSeconds_cases name seconds with ⟨hf, hn, hok⟩ | ⟨-, e, herr⟩
    · have hlt := hfits ht (by rw [hname]; rfl) hf hn
      rw [hok, Option.map_eq_none_iff] at he
      have := (Duration.fromSecsF64_isSome hf hn).mpr hlt
      simp [he] at this
    · rw [herr] at he
      cases he
  | start hst =>
    refine iff_of_true (fun j => ?_) trivial
    rw [(start_world hst).2]
    exact h j
  | @convert i request seconds name timeout _ hname hok hst =>
    refine iff_of_true (fun j => ?_) fun _ _ hf hn => ?_
    · rw [(start_world hst).2]
      exact h j
    · rw [← Duration.fromSecsF64_isSome hf hn]
      rcases durationFromSeconds_cases name seconds with ⟨-, -, he⟩ | ⟨hno, -⟩
      · rw [he] at hok
        cases hd : Duration.fromSecsF64 seconds with
        | none => simp [hd] at hok
        | some d => rfl
      · exact absurd ⟨hf, hn⟩ hno
  | @deadline i env timeout hp hd =>
    rw [noPanic_setDeadline h]
    constructor
    · intro hlt timeout' _ hd'
      rw [hd] at hd'
      cases hd'
      exact hlt
    · intro hfits
      exact hfits timeout hp hd
  | go hd =>
    refine iff_of_true h fun timeout _ hd' => ?_
    rw [hd] at hd'
    cases hd'
  | runHandle | work => exact iff_of_true h trivial

theorem timeoutFits_of_none (h : s.step act = none) : s.TimeoutFits act := by
  cases act with
  | call i request timeout =>
    cases timeout with
    | none => trivial
    | some seconds =>
      intro ht hname hf hn
      obtain ⟨name, hname⟩ := Option.isSome_iff_exists.mp hname
      have hbusy : (s.world.calls i).busy = false := by
        unfold taken at ht
        simp only [Bool.or_eq_false_iff] at ht
        exact ht.1
      unfold step call at h
      simp only [ht, Bool.false_eq_true, ite_false, hname] at h
      rcases durationFromSeconds_cases name seconds with ⟨-, -, hok⟩ | ⟨hno, -⟩
      · cases hd : Duration.fromSecsF64 seconds with
        | none => simp [hok, hd] at h
        | some d => simp [hok, hd, start, World.step, hbusy] at h
      · exact absurd ⟨hf, hn⟩ hno
  | go i env =>
    intro timeout hp hd
    unfold step at h
    simp [hp, hd] at h
  | tick | runHandle | work => trivial

end

end Timed

/-- In a run of any number of calls with timeouts no call panics, just when every
number of seconds the binding accepts is below two to the power of 64 and every
deadline is within the clock's range where it is computed. -/
theorem timeouts_panic_free_iff (world : World) (now : Instant) (acts : List TimedAct) :
    Along Timed.step Timed.NoPanic (Timed.init world now) acts ↔
      Meets Timed.step Timed.TimeoutFits (Timed.init world now) acts :=
  along_iff_meets Timed.step (I := fun _ => True) (fun _ _ _ _ _ _ _ => trivial)
    (fun _ _ _ hs _ h => Timed.noPanic_step hs h) (fun _ _ h => Timed.timeoutFits_of_none h) trivial fun _ => rfl

/-- Ten to the power of 20 seconds. -/
def hugeTimeout : List TimedAct := [.call 0 (.shutdown 0) (some ⟨0x4415af1d78b58c40⟩)]

/-- Ten to the power of 19 seconds. -/
def lateDeadline : List TimedAct := [.call 0 (.shutdown 0) (some ⟨0x43e158e460913d00⟩), .go 0 {}, .go 0 {}]

/-- The first number is too large for a `Duration`, the second for an `Instant`. -/
theorem accepted_timeouts_panic :
    ∃ start : Timed, start = .init (World.init [] [] fun _ => 1) (.ofSecs 0 (by decide)) ∧
    ¬ Along Timed.step Timed.NoPanic start hugeTimeout ∧ ¬ Along Timed.step Timed.NoPanic start lateDeadline := by
  have hhuge : durationFromSeconds "shutdown timeout" ⟨0x4415af1d78b58c40⟩ = none := by decide +kernel
  have hlate : durationFromSeconds "shutdown timeout" ⟨0x43e158e460913d00⟩ =
      some (.ok ⟨10000000000000000000, 0, by decide, by decide⟩) := by decide +kernel
  refine ⟨_, rfl, fun h => ?_, fun h => ?_⟩
  · have hp :=
      along_here Timed.step (h.2 _ (by simp only [Timed.step, Timed.call, Request.timeoutName, hhuge]; rfl))
    exact Timed.noPanic_panics 0 hp
  · have hstart := h.2 _ (by simp only [Timed.step, Timed.call, Request.timeoutName, hlate]; rfl)
    have hp := along_here Timed.step ((hstart.2 _ rfl).2 _ rfl)
    exact absurd (hp 0) (by decide)

end Pulseon
