import Pulseon.LockSound

/-!
# What a client writes to is running

Each client is used by one thread at a time. A run whose active run is in the
map of a client, and not terminal, is stored as running: only the client that
holds its lock can change that. The read of the status before
`acquire_run_writer` does not count, so the step that makes the active run is
where a run finished in between slips in.
-/

namespace Pulseon

/-! ## One thread for each client -/

/-- The client has no other thread, a handle is made between its calls, and an
active run is made for a run that is absent or running. -/
structure SingleThread (p : Protocol) (i : Nat) (l : ProtocolAct) : Prop where
  others : ∀ c, l.client = some c → ∀ j, j ≠ i → (p.threads j).client ≠ some c
  handles : ∀ c r, l = .handle c r → ∀ j, (p.threads j).client ≠ some c
  registers : ∀ c r, l = .register c r → p.threads i = .creating c r ∨ p.status r = some .running

/-- What the thread of a client relies on. -/
structure Thread.Settled (g : Registry) (status : RunId → Option RunStatus) (th : Thread) : Prop where
  creating : ∀ c r, th = .creating c r → g.activeRuns c r = none
  created : ∀ c r a, th.creates = some (c, r, a) → g.activeRuns c r = some a ∧
    (g.active a).admission ≠ .terminal ∧ ∀ run ∈ g.handles, run.activeRun ≠ a
  inserting : ∀ c r a, th = .inserting c r a → status r = none
  held : ∀ c r a, th.holds = some (c, r, a) → g.activeRuns c r = some a

structure ResumeInv (p : Protocol) : Prop where
  lock : LockInv p
  single : ∀ i j c, (p.threads i).client = some c → (p.threads j).client = some c → i = j
  settled : ∀ i, (p.threads i).Settled p.registry p.status
  running : ∀ c r a, p.registry.activeRuns c r = some a → (p.registry.active a).admission ≠ .terminal →
    p.status r = some .running ∨
      ∃ i, p.threads i = .marked c r a ∨ (p.threads i).creates = some (c, r, a)

theorem Thread.client_unique {th : Thread} {c : Nat} (h : th.client = some c) : ∀ d, th.client = some d → d = c :=
  fun _ e => Option.some.inj (e.symm.trans h)

theorem Thread.client_of_creates {th : Thread} {c a : Nat} {r : RunId} (h : th.creates = some (c, r, a)) :
    th.client = some c := by
  cases th <;> cases h <;> rfl

theorem Thread.client_of_holds {th : Thread} {c a : Nat} {r : RunId} (h : th.holds = some (c, r, a)) :
    th.client = some c := by
  cases th <;> cases h <;> rfl

theorem Thread.client_of_finalizes {th : Thread} {c : Nat} {r : RunId} (h : th.finalizes = some (c, r)) :
    th.client = some c := by
  cases th <;> cases h <;> rfl

theorem Thread.cell_of_creates {th : Thread} {x : Nat × RunId × Nat} (h : th.creates = some x) :
    th.cell = some x := by
  cases th <;> first | exact h | cases h

theorem Thread.settled_free {g : Registry} {status : RunId → Option RunStatus} {th : Thread}
    (hn : ∀ c r, th ≠ .creating c r) (hc : th.creates = none) (hh : th.holds = none) : th.Settled g status where
  creating c r e := absurd e (hn c r)
  created _ _ _ e := by rw [hc] at e; cases e
  inserting _ _ _ e := by rw [e] at hc; cases hc
  held _ _ _ e := by rw [hh] at e; cases e

/-! ## Stored statuses -/

section
variable (runs : List Run) (r q : RunId)

theorem statusIn_markRun (target : TerminalStatus) (t : Int) (hq : q ≠ r) :
    statusIn (runs.map (markRun r target t)) q = statusIn runs q := by
  unfold statusIn
  induction runs with
  | nil => rfl
  | cons run runs ih =>
    have hid : (markRun r target t run).runId = run.runId := by unfold markRun; split <;> rfl
    simp only [List.map_cons, List.find?_cons, hid]
    cases hf : run.runId == q with
    | false => exact ih
    | true =>
      have hne : run.runId ≠ r := by rw [eq_of_beq hf]; exact hq
      simp [markRun, hne]

theorem statusIn_markRun_none (target : TerminalStatus) (t : Int) (h : statusIn runs q = none) :
    statusIn (runs.map (markRun r target t)) q = none := by
  unfold statusIn at h ⊢
  simp only [Option.map_eq_none_iff, List.find?_eq_none, List.mem_map, forall_exists_index, and_imp,
    forall_apply_eq_imp_iff₂] at h ⊢
  intro run hrun
  have hid : (markRun r target t run).runId = run.runId := by unfold markRun; split <;> rfl
  rw [hid]; exact h run hrun

theorem statusIn_append_some {x : RunStatus} (run : Run) (h : statusIn runs q = some x) :
    statusIn (runs ++ [run]) q = some x := by
  obtain ⟨y, hy, hx⟩ := Option.map_eq_some_iff.mp h
  unfold statusIn
  rw [List.find?_append, hy]
  exact congrArg some hx

theorem statusIn_append_ne (run : Run) (hq : run.runId ≠ q) :
    statusIn (runs ++ [run]) q = statusIn runs q := by
  unfold statusIn
  rw [List.find?_append]
  cases runs.find? fun run => run.runId == q with
  | some y => rfl
  | none => simp [hq]

theorem statusIn_append_none (run : Run) (h : statusIn runs run.runId = none) :
    statusIn (runs ++ [run]) run.runId = some run.status := by
  unfold statusIn at h ⊢
  rw [List.find?_append, Option.map_eq_none_iff.mp h]
  simp

end

/-! ## Other clients -/

/-- The step touches active runs, map entries and handles of one client only. -/
structure Registry.Elsewhere (g g' : Registry) (c : Nat) : Prop where
  maps : ∀ d, d ≠ c → g'.activeRuns d = g.activeRuns d
  admission : ∀ d r a, d ≠ c → g.Keyed d r a → (g'.active a).admission = (g.active a).admission
  handles : ∀ run ∈ g'.handles, run ∈ g.handles ∨ run.client = c

namespace Registry
variable (g : Registry)

theorem elsewhere_refl (c : Nat) : g.Elsewhere g c := ⟨fun _ _ => rfl, fun _ _ _ _ _ => rfl, fun _ h => Or.inl h⟩

theorem elsewhere_setAdmission {c a : Nat} {r : RunId} (x : RunAdmission) (hk : g.Keyed c r a) :
    g.Elsewhere (g.setAdmission a x) c where
  maps _ _ := rfl
  admission d q b hd hb := by
    rw [setAdmission_active, if_neg]
    rintro rfl
    exact hd (hb.1.1.symm.trans hk.1.1)
  handles _ h := Or.inl h

theorem elsewhere_markTerminal {c a : Nat} {r : RunId} (hk : g.Keyed c r a) :
    g.Elsewhere (g.markTerminal c r a) c :=
  have h := g.elsewhere_setAdmission .terminal hk
  ⟨h.maps, h.admission, h.handles⟩

theorem elsewhere_setGate (c a : Nat) (x : Option Nat) : g.Elsewhere (g.setGate a x) c where
  maps _ _ := rfl
  admission _ _ _ _ _ := setGate_admission ..
  handles _ h := Or.inl h

theorem elsewhere_register (c : Nat) (r : RunId) : g.Elsewhere (g.register c r) c where
  maps d hd := by
    funext q
    rw [register_activeRuns, if_neg]
    exact fun e => hd e.1
  admission d q b _ hb := (g.keeps_register c r).admission d q b hb
  handles _ h := Or.inl h

theorem elsewhere_releaseLock (c a : Nat) : g.Elsewhere (g.releaseLock a) c where
  maps _ _ := by rw [releaseLock_activeRuns]
  admission _ _ _ _ _ := releaseLock_admission ..
  handles _ h := by rw [releaseLock_handles] at h; exact Or.inl h

theorem elsewhere_releaseRunWriter (c : Nat) (r : RunId) : g.Elsewhere (g.releaseRunWriter c r) c where
  maps d hd := by
    funext q
    rw [releaseRunWriter_activeRuns, if_neg]
    exact fun e => hd e.1
  admission _ _ _ _ _ := releaseRunWriter_admission ..
  handles _ h := by rw [releaseRunWriter_handles] at h; exact Or.inl h

theorem elsewhere_releaseAll (c : Nat) : g.Elsewhere (g.releaseAllRunWriters c) c where
  maps d hd := by
    funext q
    rw [releaseAll_activeRuns, if_neg hd]
  admission _ _ _ _ _ := releaseAll_admission ..
  handles _ h := Or.inl h

theorem elsewhere_runHandle (c : Nat) (r : RunId) : g.Elsewhere (g.runHandle c r) c where
  maps _ _ := by rw [runHandle_activeRuns]
  admission d q b _ hb := (g.keeps_runHandle c r).admission d q b hb
  handles run h := by
    rcases (runHandle_handles _ _ _).mp h with h | ⟨a, rfl, -⟩
    · exact Or.inl h
    · exact Or.inr rfl

end Registry

section
variable {p : Protocol} (h : ResumeInv p) {i : Nat} {th : Thread}
include h

theorem ResumeInv.alone {c : Nat} (hi : (p.threads i).client = some c) :
    ∀ j, j ≠ i → (p.threads j).client ≠ some c := fun j hj e => hj (h.single j i c e hi)

/-- The client's own thread is the only one that may keep a run of its map from being stored as running. -/
theorem ResumeInv.running_own {c a : Nat} {r : RunId} (hc : ∀ j, j ≠ i → (p.threads j).client ≠ some c)
    (ha : p.registry.activeRuns c r = some a) (hn : (p.registry.active a).admission ≠ .terminal) :
    p.status r = some .running ∨ p.threads i = .marked c r a ∨ (p.threads i).creates = some (c, r, a) := by
  refine (h.running c r a ha hn).imp id ?_
  rintro ⟨j, hj⟩
  have hcl : (p.threads j).client = some c := hj.elim (fun e => by rw [e]; rfl) Thread.client_of_creates
  by_cases hji : j = i
  · exact hji ▸ hj
  · exact absurd hcl (hc j hji)

theorem ResumeInv.running_quiet {c a : Nat} {r : RunId} (hc : ∀ j, j ≠ i → (p.threads j).client ≠ some c)
    (hm : ∀ d q b, p.threads i ≠ .marked d q b) (hcr : (p.threads i).creates = none)
    (ha : p.registry.activeRuns c r = some a) (hn : (p.registry.active a).admission ≠ .terminal) :
    p.status r = some .running := by
  rcases h.running_own hc ha hn with e | e | e
  · exact e
  · exact absurd e (hm c r a)
  · rw [hcr] at e; cases e

theorem ResumeInv.live {c a : Nat} {r : RunId} (hc : ∀ j, j ≠ i → (p.threads j).client ≠ some c)
    (hi : (p.threads i).ends = none) (ha : p.registry.activeRuns c r = some a) :
    (p.registry.active a).admission ≠ .terminal := by
  intro ht
  obtain ⟨j, hji, hj⟩ := h.lock.dead_elsewhere hi ha ht
  exact hc j hji (Thread.client_of_finalizes (Thread.finalizes_of_ends hj))

theorem ResumeInv.build {c : Nat} {q : Protocol} (g : Registry) (runs : List Run) (torn : Nat → Bool)
    (hq : q = ⟨g, runs, torn, Function.update p.threads i th⟩) (hlock : LockInv q)
    (hc : ∀ j, j ≠ i → (p.threads j).client ≠ some c)
    (hold : ∀ d, (p.threads i).client = some d → d = c) (hcl : ∀ d, th.client = some d → d = c)
    (he : p.registry.Elsewhere g c)
    (hst : ∀ j, j ≠ i → ∀ d r a, p.threads j = .inserting d r a → q.status r = none)
    (hrun : ∀ d r a, d ≠ c → p.registry.activeRuns d r = some a →
      (p.registry.active a).admission ≠ .terminal → p.status r = some .running → q.status r = some .running)
    (hi : th.Settled g q.status)
    (hown : ∀ r a, g.activeRuns c r = some a → (g.active a).admission ≠ .terminal →
      q.status r = some .running ∨ th = .marked c r a ∨ th.creates = some (c, r, a)) : ResumeInv q := by
  have hself : q.threads i = th := by subst hq; exact Function.update_self ..
  have hother : ∀ j, j ≠ i → q.threads j = p.threads j := fun j hj => by
    subst hq; exact Function.update_of_ne hj ..
  have hg : q.registry = g := by subst hq; rfl
  refine ⟨hlock, ?_, ?_, ?_⟩
  · -- two threads of one client, one of which is the thread that moved
    have hone : ∀ j d, j ≠ i → th.client = some d → (p.threads j).client ≠ some d := by
      intro j d hj e
      rw [hcl d e]; exact hc j hj
    intro j k d hj hk
    by_cases hji : j = i
    · by_cases hki : k = i
      · rw [hji, hki]
      · rw [hji, hself] at hj; rw [hother k hki] at hk
        exact absurd hk (hone k d hki hj)
    · by_cases hki : k = i
      · rw [hki, hself] at hk; rw [hother j hji] at hj
        exact absurd hj (hone j d hji hk)
      · rw [hother j hji] at hj; rw [hother k hki] at hk
        exact h.single j k d hj hk
  · intro j
    by_cases hji : j = i
    · rw [hji, hself, hg]; exact hi
    · have hs := h.settled j
      have hne : ∀ d, (p.threads j).client = some d → d ≠ c := fun d e e' => hc j hji (e' ▸ e)
      rw [hother j hji, hg]
      refine ⟨fun d r e => ?_, fun d r a e => ?_, hst j hji, fun d r a e => ?_⟩
      · rw [he.maps d (hne d (by rw [e]; rfl))]; exact hs.creating d r e
      · have hd := hne d (Thread.client_of_creates e)
        have hk := (h.lock.threads j).keyed d r a (Thread.cell_of_creates e)
        obtain ⟨h1, h2, h3⟩ := hs.created d r a e
        rw [he.maps d hd, he.admission d r a hd hk]
        refine ⟨h1, h2, fun run hrun' e' => ?_⟩
        rcases he.handles run hrun' with hold | hnew
        · exact h3 run hold e'
        · -- the handle would be on an active run of its own client
          have hk' := hlock.registry.keyed d r a (by rw [hg, he.maps d hd]; exact h1)
          have hkr := hlock.registry.handled run (hg ▸ hrun')
          rw [e'] at hkr
          exact hd (hk'.1.1.symm.trans (hkr.1.1.trans hnew))
      · rw [he.maps d (hne d (Thread.client_of_holds e))]; exact hs.held d r a e
  · intro d r a ha hn
    rw [hg] at ha hn
    by_cases hd : d = c
    · subst hd
      rcases hown r a ha hn with e | e
      · exact Or.inl e
      · exact Or.inr ⟨i, by rw [hself]; exact e⟩
    · rw [he.maps d hd] at ha
      rw [he.admission d r a hd (h.lock.registry.keyed d r a ha)] at hn
      rcases h.running d r a ha hn with e | ⟨j, hj⟩
      · exact Or.inl (hrun d r a hd ha hn e)
      · refine Or.inr ⟨j, ?_⟩
        rw [hother j]
        · exact hj
        · rintro rfl
          exact hd (hold d (hj.elim (fun e => by rw [e]; rfl) Thread.client_of_creates))

theorem ResumeInv.buildSame {c : Nat} {q : Protocol} (g : Registry) (torn : Nat → Bool)
    (hq : q = ⟨g, p.runs, torn, Function.update p.threads i th⟩) (hlock : LockInv q)
    (hc : ∀ j, j ≠ i → (p.threads j).client ≠ some c)
    (hold : ∀ d, (p.threads i).client = some d → d = c) (hcl : ∀ d, th.client = some d → d = c)
    (he : p.registry.Elsewhere g c) (hi : th.Settled g p.status)
    (hown : ∀ r a, g.activeRuns c r = some a → (g.active a).admission ≠ .terminal →
      p.status r = some .running ∨ th = .marked c r a ∨ th.creates = some (c, r, a)) : ResumeInv q := by
  have hs : q.status = p.status := by subst hq; rfl
  refine h.build g p.runs torn hq hlock hc hold hcl he ?_ ?_ (hs ▸ hi) (hs ▸ hown)
  · intro j _ d r a e
    rw [hs]; exact (h.settled j).inserting d r a e
  · intro d r a _ _ _ e
    rw [hs]; exact e

/-! ## Steps -/

theorem ResumeInv.undoesAlone {l : ProtocolAct} {q : Protocol} (hl : SingleThread p i l)
    (hm : ProtocolMove p i l q) : UndoesAlone p l := by
  refine ⟨?_, ?_⟩
  · rintro c r rfl j hj
    have hcl := Thread.client_of_finalizes hj
    cases hm with
    | begin hi =>
      refine hl.others c rfl j ?_ hcl
      rintro rfl
      rw [hi] at hj; cases hj
  · rintro c r x rfl hx
    cases hm with
    | undoWriter hi =>
      rename_i a
      obtain ⟨ha, -, hh⟩ := (h.settled i).created c r a (by rw [hi]; rfl)
      rw [ha] at hx; cases hx
      refine ⟨hh, fun j => ?_⟩
      have hnone : (p.threads j).finalizes ≠ some (c, r) := by
        intro e
        have := h.single i j c (by rw [hi]; rfl) (Thread.client_of_finalizes e)
        rw [← this, hi] at e; cases e
      exact ⟨fun e => hnone (Thread.finalizes_of_holds e), fun e => hnone (Thread.finalizes_of_ends e)⟩

/-- A run of two clients' maps, terminal in neither, would be locked by both. -/
theorem ResumeInv.one_client {c d a b : Nat} {r : RunId} (ha : p.registry.activeRuns c r = some a)
    (hna : (p.registry.active a).admission ≠ .terminal) (hb : p.registry.activeRuns d r = some b)
    (hnb : (p.registry.active b).admission ≠ .terminal) : d = c := by
  have hla := h.lock.registry.holds ha hna
  have hlb := h.lock.registry.holds hb hnb
  rw [hla] at hlb; cases hlb
  exact (h.lock.registry.held.unique ha hb).1

/-- The thread changes the admission of its client's active run, that stays alive. -/
theorem ResumeInv.readmit {c a : Nat} {r : RunId} {x : RunAdmission} {q : Protocol}
    (hi : p.threads i = .using c r a) (hth : th = .idle ∨ th = .using c r a)
    (hq : q = ⟨p.registry.setAdmission a x, p.runs, p.torn, Function.update p.threads i th⟩)
    (hlock : LockInv q) : ResumeInv q := by
  have hcl : (p.threads i).client = some c := by rw [hi]; rfl
  have hcell : (p.threads i).holds = some (c, r, a) := by rw [hi]; rfl
  have halone := h.alone hcl
  have hkey := (h.lock.threads i).keyed c r a (Thread.cell_of_holds hcell)
  refine h.buildSame (p.registry.setAdmission a x) p.torn hq hlock halone
    (Thread.client_unique hcl) ?_ (p.registry.elsewhere_setAdmission x hkey) ?_ ?_
  · rintro d e
    rcases hth with rfl | rfl
    · cases e
    · exact (Option.some.inj e).symm
  · rcases hth with rfl | rfl
    · exact Thread.settled_free nofun rfl rfl
    · exact ⟨nofun, nofun, nofun, fun d s b e => (h.settled i).held d s b (by rw [hi]; exact e)⟩
  · intro r' b hb hn
    have hlive : (p.registry.active b).admission ≠ .terminal := by
      rw [Registry.setAdmission_active] at hn
      split at hn
      · rename_i e; rw [e]; exact ((h.lock.threads i).held c r a hcell).1
      · exact hn
    exact Or.inl (h.running_quiet halone (by rw [hi]; nofun) (by rw [hi]; rfl) hb hlive)

theorem ResumeInv.share {c a : Nat} {r : RunId} (hl : SingleThread p i (.share c r))
    (ha : p.registry.activeRuns c r = some a) (hth : (p.threads i).Acquires c r a th)
    (hlock : LockInv (p.setThread i th)) : ResumeInv (p.setThread i th) := by
  have hlive : (p.threads i).ends = none → (p.registry.active a).admission ≠ .terminal :=
    fun hi => h.live (hl.others c rfl) hi ha
  generalize hti' : p.threads i = ti at hth
  cases hth with
  | create =>
    have := (h.settled i).creating c r hti'
    rw [ha] at this; cases this
  | finalize =>
    refine h.buildSame p.registry p.torn rfl hlock (hl.others c rfl) (Thread.client_unique (by rw [hti']; rfl))
      (fun d e => (Option.some.inj e).symm)
      (p.registry.elsewhere_refl c) ⟨nofun, nofun, nofun, fun d s b e => ?_⟩ fun r' a' ha' hn => Or.inl ?_
    · cases e; exact ha
    · exact h.running_quiet (hl.others c rfl) (by rw [hti']; nofun) (by rw [hti']; rfl) ha' hn
  | resume =>
    rw [setThread_self hti'] at hlock ⊢
    exact h

theorem ResumeInv.register {c : Nat} {r : RunId} (hl : SingleThread p i (.register c r))
    (hth : (p.threads i).Acquires c r p.registry.fresh th)
    (hlock : LockInv ((p.setRegistry (p.registry.register c r)).setThread i th)) :
    ResumeInv ((p.setRegistry (p.registry.register c r)).setThread i th) := by
  have hnew : (p.registry.register c r).activeRuns c r = some p.registry.fresh := by
    rw [Registry.register_activeRuns, if_pos ⟨rfl, rfl⟩]
  have hopen : ((p.registry.register c r).active p.registry.fresh).admission ≠ .terminal := by
    rw [Registry.register_active, if_pos rfl]; nofun
  have hcl : ∀ d, (p.threads i).client = some d → d = c := by
    intro d e
    generalize p.threads i = ti at hth e
    cases hth <;> cases e <;> rfl
  have hcl' : ∀ d, th.client = some d → d = c := by
    intro d e
    generalize p.threads i = ti at hth
    cases hth <;> cases e <;> rfl
  -- an entry of the map is the new one or an old one
  have hown : ∀ r' a', (p.registry.register c r).activeRuns c r' = some a' →
      ((p.registry.register c r).active a').admission ≠ .terminal →
      r' = r ∧ a' = p.registry.fresh ∨ p.status r' = some .running := by
    intro r' a' ha' hn
    rw [Registry.register_activeRuns] at ha'
    split at ha'
    · rename_i e; cases ha'; exact Or.inl ⟨e.2, rfl⟩
    · rw [(p.registry.keeps_register c r).admission _ _ _ (h.lock.registry.keyed c r' a' ha')] at hn
      rcases h.running_own (hl.others c rfl) ha' hn with e | e | e
      · exact Or.inr e
      · generalize p.threads i = ti at hth e
        cases hth <;> cases e
      · generalize p.threads i = ti at hth e
        cases hth <;> cases e
  have hreg := hl.registers c r rfl
  generalize hf : p.registry.fresh = f at hth hnew hopen hown
  generalize hti' : p.threads i = ti at hth hreg
  cases hth with
  | create =>
    refine h.buildSame (p.registry.register c r) p.torn rfl hlock (hl.others c rfl) hcl hcl'
      (p.registry.elsewhere_register c r)
      ⟨nofun, fun d s b e => ?_, nofun, nofun⟩ fun r' a' ha' hn => ?_
    · cases e
      refine ⟨hnew, hopen, fun run hrun e => ?_⟩
      have := (h.lock.registry.handled run hrun).2
      omega
    · rcases hown r' a' ha' hn with ⟨rfl, rfl⟩ | e
      · exact Or.inr (Or.inr rfl)
      · exact Or.inl e
  | finalize =>
    refine h.buildSame (p.registry.register c r) p.torn rfl hlock (hl.others c rfl) hcl hcl'
      (p.registry.elsewhere_register c r)
      ⟨nofun, nofun, nofun, fun d s b e => ?_⟩ fun r' a' ha' hn => Or.inl ?_
    · cases e; exact hnew
    · rcases hown r' a' ha' hn with ⟨rfl, rfl⟩ | e
      · exact hreg.resolve_left nofun
      · exact e
  | resume =>
    refine h.buildSame (p.registry.register c r) p.torn rfl hlock (hl.others c rfl) hcl hcl'
      (p.registry.elsewhere_register c r)
      (Thread.settled_free nofun rfl rfl) fun r' a' ha' hn => Or.inl ?_
    rcases hown r' a' ha' hn with ⟨rfl, rfl⟩ | e
    · exact hreg.resolve_left nofun
    · exact e

theorem ResumeInv.insert {c a : Nat} {r : RunId} {run : Run} (hi : p.threads i = .inserting c r a)
    (hid : run.runId = r) (hrunning : run.status = .running)
    (hlock : LockInv ({ p with runs := p.runs ++ [run] }.setThread i .idle)) :
    ResumeInv ({ p with runs := p.runs ++ [run] }.setThread i .idle) := by
  have hcl : (p.threads i).client = some c := by rw [hi]; rfl
  have halone := h.alone hcl
  obtain ⟨ha, hn, -⟩ := (h.settled i).created c r a (by rw [hi]; rfl)
  have hnone : statusIn p.runs run.runId = none := hid ▸ (h.settled i).inserting c r a hi
  have hstay : ∀ {q x}, p.status q = some x → statusIn (p.runs ++ [run]) q = some x :=
    fun e => statusIn_append_some p.runs _ run e
  refine h.build p.registry (p.runs ++ [run]) p.torn rfl hlock (halone) (Thread.client_unique hcl) nofun
    (p.registry.elsewhere_refl c) ?_ (fun _ _ _ _ _ _ e => hstay e) (Thread.settled_free nofun rfl rfl)
    fun r' a' ha' hn' => Or.inl ?_
  · intro j hj d s b e
    obtain ⟨hb, hnb, -⟩ := (h.settled j).created d s b (by rw [e]; rfl)
    have hne : run.runId ≠ s := by
      rintro rfl
      rw [hid] at hb
      exact halone j hj (by rw [e, ← h.one_client ha hn hb hnb]; rfl)
    exact (statusIn_append_ne p.runs s run hne).trans ((h.settled j).inserting d s b e)
  · rcases h.running_own (halone) ha' hn' with e | e | e
    · exact hstay e
    · rw [hi] at e; cases e
    · rw [hi] at e; cases e
      show statusIn (p.runs ++ [run]) r = _
      rw [← hid, statusIn_append_none p.runs run hnone, hrunning]

theorem ResumeInv.mark {c a : Nat} {r : RunId} {target : TerminalStatus} {t : Int} {q : Protocol}
    (hi : p.threads i = .using c r a)
    (hq : q = ⟨p.registry, p.runs.map (markRun r target t), p.torn,
      Function.update p.threads i (.marked c r a)⟩) (hlock : LockInv q) : ResumeInv q := by
  have hcl : (p.threads i).client = some c := by rw [hi]; rfl
  have hcell : (p.threads i).holds = some (c, r, a) := by rw [hi]; rfl
  have halone := h.alone hcl
  have ha := (h.settled i).held c r a hcell
  have hn := ((h.lock.threads i).held c r a hcell).1
  have hother : ∀ {s}, s ≠ r → p.status s = some .running → q.status s = some .running := by
    intro s hs e
    rw [hq]
    exact (statusIn_markRun p.runs r s target t hs).trans e
  refine h.build p.registry _ p.torn hq hlock halone (Thread.client_unique hcl)
    (fun d e => (Option.some.inj e).symm) (p.registry.elsewhere_refl c) ?_ ?_ ?_ ?_
  · intro j _ d s b e
    rw [hq]
    exact statusIn_markRun_none p.runs r s target t ((h.settled j).inserting d s b e)
  · intro d s b hd hb hnb e
    refine hother ?_ e
    rintro rfl
    exact hd (h.one_client ha hn hb hnb)
  · refine ⟨nofun, nofun, nofun, fun d s b e => ?_⟩
    cases e; exact ha
  · intro s b hb hnb
    by_cases hs : s = r
    · subst hs
      rw [ha] at hb; cases hb
      exact Or.inr (Or.inl rfl)
    · exact Or.inl (hother hs (h.running_quiet halone (by rw [hi]; nofun) (by rw [hi]; rfl) hb hnb))

theorem ResumeInv.handle {c : Nat} {r : RunId} (hc : ∀ j, (p.threads j).client ≠ some c)
    (hlock : LockInv (p.setRegistry (p.registry.runHandle c r))) :
    ResumeInv (p.setRegistry (p.registry.runHandle c r)) := by
  have hkeep := p.registry.keeps_runHandle c r
  have hmap := p.registry.runHandle_activeRuns c r
  refine ⟨hlock, h.single, fun j => ?_, fun d s b hb hn => ?_⟩
  · have hs := h.settled j
    show (p.threads j).Settled (p.registry.runHandle c r) p.status
    refine ⟨?_, fun d s b e => ?_, hs.inserting, ?_⟩
    · rw [hmap]; exact hs.creating
    · obtain ⟨h1, h2, h3⟩ := hs.created d s b e
      have hk := (h.lock.threads j).keyed d s b (Thread.cell_of_creates e)
      rw [hmap, hkeep.admission d s b hk]
      refine ⟨h1, h2, fun run hrun e' => ?_⟩
      rcases (p.registry.elsewhere_runHandle c r).handles run hrun with hold | hnew
      · exact h3 run hold e'
      · have hkr := hlock.registry.handled run hrun
        rw [e'] at hkr
        refine hc j ?_
        rw [Thread.client_of_creates e, ← hnew, ← hkr.1.1]
        exact congrArg some (hkeep.keyed d s b hk).1.1.symm
    · rw [hmap]; exact hs.held
  · change (p.registry.runHandle c r).activeRuns d s = some b at hb
    change ((p.registry.runHandle c r).active b).admission ≠ _ at hn
    rw [hmap] at hb
    rw [hkeep.admission d s b (h.lock.registry.keyed d s b hb)] at hn
    exact h.running d s b hb hn

theorem ResumeInv.move {q : Protocol} {l : ProtocolAct} (hl : SingleThread p i l) (hm : ProtocolMove p i l q) :
    ResumeInv q := by
  have hlock : LockInv q := h.lock.move (h.undoesAlone hl hm) hm
  have hti := h.settled i
  have hidle : ∀ {c}, p.threads i = .idle → ∀ d, (p.threads i).client = some d → d = c := by
    intro c hi d e; rw [hi] at e; cases e
  cases hm with
  | stay => exact h
  | returns hr =>
    have hcl : ∃ c, (p.threads i).client = some c := by
      generalize p.threads i = ti at hr
      cases ti <;> first | exact ⟨_, rfl⟩ | cases hr
    obtain ⟨c, hcl⟩ := hcl
    refine h.buildSame p.registry p.torn rfl hlock (h.alone hcl) (Thread.client_unique hcl) nofun
      (p.registry.elsewhere_refl c)
      (Thread.settled_free nofun rfl rfl) fun r a ha hn => Or.inl ?_
    rcases h.running_own (h.alone hcl) ha hn with e | e | e
    · exact e
    · rw [e] at hr; cases hr
    · generalize p.threads i = ti at hr e
      cases ti <;> cases hr <;> cases e
  | begin hi =>
    rename_i c r
    refine h.buildSame p.registry p.torn rfl hlock (hl.others c rfl) (hidle hi)
      (fun d e => (Option.some.inj e).symm)
      (p.registry.elsewhere_refl c) (Thread.settled_free nofun rfl rfl) fun r a ha hn => Or.inl ?_
    exact h.running_quiet (hl.others c rfl) (by rw [hi]; nofun) (by rw [hi]; rfl) ha hn
  | absent hi hnone =>
    rename_i c r
    have hown : ∀ r a, p.registry.activeRuns c r = some a → (p.registry.active a).admission ≠ .terminal →
        p.status r = some .running := by
      intro r a ha hn
      exact h.running_quiet (hl.others c rfl) (by rw [hi]; nofun) (by rw [hi]; rfl) ha hn
    refine h.buildSame p.registry p.torn rfl hlock (hl.others c rfl) (hidle hi)
      (fun d e => (Option.some.inj e).symm)
      (p.registry.elsewhere_refl c) ⟨?_, nofun, nofun, nofun⟩ fun r a ha hn => Or.inl (hown r a ha hn)
    intro d s e
    cases e
    cases ha : p.registry.activeRuns c r with
    | none => rfl
    | some a =>
      have hrun := hown r a ha (h.live (hl.others c rfl) (by rw [hi]; rfl) ha)
      rw [hnone] at hrun; cases hrun
  | share ha hth => exact h.share hl ha hth hlock
  | register _ _ hth => exact h.register hl hth hlock
  | check hi hnone =>
    rename_i c r a
    have hcl : (p.threads i).client = some c := by rw [hi]; rfl
    refine h.buildSame p.registry p.torn rfl hlock (h.alone hcl) (Thread.client_unique hcl)
      (fun d e => (Option.some.inj e).symm)
      (p.registry.elsewhere_refl c) ⟨nofun, fun d s b e => ?_, fun d s b e => ?_, nofun⟩ fun r' a' ha hn => ?_
    · exact hti.created d s b (by rw [hi]; exact e)
    · cases e; exact hnone
    · rcases h.running_own (h.alone hcl) ha hn with e | e | e
      · exact Or.inl e
      · rw [hi] at e; cases e
      · rw [hi] at e; exact Or.inr (Or.inr e)
  | insert hi hid hrunning => exact h.insert hi hid hrunning hlock
  | undo hi =>
    rename_i c r a
    have hcr : (p.threads i).creates = some (c, r, a) := by rcases hi with hi | hi <;> (rw [hi]; rfl)
    have hcl := Thread.client_of_creates hcr
    refine h.buildSame p.registry p.torn rfl hlock (h.alone hcl) (Thread.client_unique hcl)
      (fun d e => (Option.some.inj e).symm)
      (p.registry.elsewhere_refl c) ⟨nofun, fun d s b e => ?_, nofun, nofun⟩ fun r' a' ha hn => ?_
    · cases e; exact hti.created c r a hcr
    · rcases h.running_own (h.alone hcl) ha hn with e | e | e
      · exact Or.inl e
      · rw [e] at hcr; cases hcr
      · rw [hcr] at e; exact Or.inr (Or.inr e)
  | undoWriter hi =>
    rename_i c r a
    have hcl : (p.threads i).client = some c := by rw [hi]; rfl
    refine h.buildSame (p.registry.releaseRunWriter c r) p.torn rfl hlock (h.alone hcl)
      (Thread.client_unique hcl) (fun d e => (Option.some.inj e).symm)
      (p.registry.elsewhere_releaseRunWriter c r) (Thread.settled_free nofun rfl rfl)
      fun r' a' ha hn => Or.inl ?_
    rw [Registry.releaseRunWriter_admission] at hn
    rw [Registry.releaseRunWriter_activeRuns] at ha
    split at ha
    · cases ha
    · rename_i hne
      rcases h.running_own (h.alone hcl) ha hn with e | e | e
      · exact e
      · rw [hi] at e; cases e
      · rw [hi] at e; cases e; exact absurd ⟨rfl, rfl⟩ hne
  | undoLock hi | releaseLock hi =>
    rename_i c r a
    have hcl : (p.threads i).client = some c := by rw [hi]; rfl
    refine h.buildSame (p.registry.releaseLock a) p.torn rfl hlock (h.alone hcl) (Thread.client_unique hcl) ?_
      (p.registry.elsewhere_releaseLock c a)
      (Thread.settled_free nofun rfl rfl) fun r' a' ha hn => Or.inl ?_
    · first | exact fun d e => (Option.some.inj e).symm | exact nofun
    · rw [Registry.releaseLock_admission] at hn
      rw [Registry.releaseLock_activeRuns] at ha
      exact h.running_quiet (h.alone hcl) (by rw [hi]; nofun) (by rw [hi]; rfl) ha hn
  | releaseWriter hi =>
    rename_i c r a
    have hcl : (p.threads i).client = some c := by rw [hi]; rfl
    refine h.buildSame (p.registry.releaseRunWriter c r) p.torn rfl hlock (h.alone hcl)
      (Thread.client_unique hcl) nofun (p.registry.elsewhere_releaseRunWriter c r)
      (Thread.settled_free nofun rfl rfl) fun r' a' ha hn => Or.inl ?_
    rw [Registry.releaseRunWriter_admission] at hn
    rw [Registry.releaseRunWriter_activeRuns] at ha
    split at ha
    · cases ha
    · exact h.running_quiet (h.alone hcl) (by rw [hi]; nofun) (by rw [hi]; rfl) ha hn
  | close hi hg =>
    refine h.readmit (x := .closing) hi (Or.inr rfl) ?_ hlock
    rw [← hi, Function.update_eq_self]; rfl
  | reopen hi hg => exact h.readmit hi (Or.inl rfl) rfl hlock
  | mark hi => exact h.mark hi rfl hlock
  | markTerminal hi hg =>
    rename_i c r a
    have hcl : (p.threads i).client = some c := by rw [hi]; rfl
    have hkey := (h.lock.threads i).keyed c r a (by rw [hi]; rfl)
    refine h.buildSame (p.registry.markTerminal c r a) p.torn rfl hlock (h.alone hcl) (Thread.client_unique hcl)
      (fun d e => (Option.some.inj e).symm)
      (p.registry.elsewhere_markTerminal hkey) (Thread.settled_free nofun rfl rfl) fun r' a' ha hn => Or.inl ?_
    change ((p.registry.setAdmission a .terminal).active a').admission ≠ _ at hn
    rw [Registry.setAdmission_active] at hn
    split at hn
    · exact absurd rfl hn
    · rename_i hne
      rcases h.running_own (h.alone hcl) ha hn with e | e | e
      · exact e
      · rw [hi] at e; cases e; exact absurd rfl hne
      · rw [hi] at e; cases e
  | enter hi hrun hg hadm =>
    rename_i run
    refine h.buildSame (p.registry.setGate run.activeRun (some i)) p.torn rfl hlock (hl.others _ rfl) (hidle hi)
      (fun d e => (Option.some.inj e).symm)
      (p.registry.elsewhere_setGate run.client run.activeRun (some i)) (Thread.settled_free nofun rfl rfl)
      fun r a ha hn => Or.inl ?_
    rw [Registry.setGate_admission] at hn
    exact h.running_quiet (hl.others _ rfl) (by rw [hi]; nofun) (by rw [hi]; rfl) ha hn
  | leave hi =>
    rename_i run
    have hcl : (p.threads i).client = some run.client := by rw [hi]; rfl
    refine h.buildSame (p.registry.setGate run.activeRun none) p.torn rfl hlock (h.alone hcl)
      (Thread.client_unique hcl) nofun
      (p.registry.elsewhere_setGate run.client run.activeRun none) (Thread.settled_free nofun rfl rfl)
      fun r a ha hn => Or.inl ?_
    rw [Registry.setGate_admission] at hn
    exact h.running_quiet (h.alone hcl) (by rw [hi]; nofun) (by rw [hi]; rfl) ha hn
  | tear hi =>
    rename_i c
    refine h.buildSame p.registry (Function.update p.torn c true) rfl hlock (hl.others c rfl) (hidle hi)
      (fun d e => (Option.some.inj e).symm)
      (p.registry.elsewhere_refl c) (Thread.settled_free nofun rfl rfl) fun r a ha hn => Or.inl ?_
    exact h.running_quiet (hl.others c rfl) (by rw [hi]; nofun) (by rw [hi]; rfl) ha hn
  | releaseAll hi =>
    rename_i c
    have hcl : (p.threads i).client = some c := by rw [hi]; rfl
    refine h.buildSame (p.registry.releaseAllRunWriters c) p.torn rfl hlock (h.alone hcl)
      (Thread.client_unique hcl) nofun (p.registry.elsewhere_releaseAll c)
      (Thread.settled_free nofun rfl rfl) fun r a ha hn => ?_
    rw [Registry.releaseAll_activeRuns, if_pos rfl] at ha; cases ha
  | handle => exact h.handle (hl.handles _ _ rfl) hlock

end

/-! ## The clients -/

def Request.client : Request → Nat
  | .createProject c _ _ | .createRun c _ _ _ | .resumeRun c _ | .finishRun c _ | .failRun c _ => c
  | .flushRunData c _ | .shutdown c => c
  | .logMetricAtStep run _ _ _ => run.client

/-- The client on which the step starts a call or makes a handle. -/
def WorldAct.opens : WorldAct → Option Nat
  | .start _ request => some request.client
  | .runHandle c _ => some c
  | _ => none

/-- The run a `resume_run`, `finish_run` or `fail_run` is about to run `acquire_run_writer` for. -/
def Call.reacquires : Call → Option (Nat × RunId)
  | .resumeRun c r (.acquire _) | .finalizeRun c r _ .acquire => some (c, r)
  | _ => none

/-- A client is used by one thread at a time. -/
def SingleThreaded (s : World) (act : WorldAct) : Prop :=
  ∀ c, act.opens = some c → ∀ j, (s.calls j).client ≠ some c

/-- Where `resume_run`, `finish_run` or `fail_run` makes a new active run, the
stored run is running. -/
def ReacquiresRunning (s : World) : WorldAct → Prop
  | .go i env => ∀ k ∈ (s.calls i).reacquires, s.registers i env k.1 k.2 → statusIn s.runs k.2 = some .running
  | _ => True

instance (s : World) : ∀ act, Decidable (ReacquiresRunning s act)
  | .go i env => inferInstanceAs (Decidable (∀ k ∈ (s.calls i).reacquires,
      s.registers i env k.1 k.2 → statusIn s.runs k.2 = some .running))
  | .start _ _ | .runHandle _ _ | .work _ _ => isTrue trivial

def Serial (s : World) : Prop :=
  ∀ i j c, (s.calls i).client = some c → (s.calls j).client = some c → i = j

theorem request_client (request : Request) : request.call.client = some request.client := by
  cases request <;> rfl

theorem thread_client {k : Call} {c : Nat} (h : k.thread.client = some c) : k.client = some c := by
  cases k.threaded with
  | idle e => rw [e] at h; cases h
  | create _ _ _ _ pc => cases pc <;> first | exact h | cases h
  | finalize _ _ _ pc => cases pc <;> first | exact h | cases h
  | log => exact h
  | shutdown e => rw [e] at h; exact h

theorem Serial.step {s t : World} {act : WorldAct} (h : Serial s) (hc : SingleThreaded s act)
    (hs : s.step act = some t) : Serial t := by
  refine calls_unique (f := Call.client) (fun _ _ hk => hk.client) ?_ hs h
  rintro i request rfl c e
  rw [request_client] at e
  exact hc c e

theorem acquires_cases {k : Call} {c : Nat} {r : RunId} (h : k.acquires = some (c, r)) :
    k.thread = .creating c r ∨ k.reacquires = some (c, r) := by
  cases k with
  | createRun c' projectId name r' pc => cases pc <;> cases h; exact Or.inl rfl
  | resumeRun c' r' pc => cases pc <;> cases h; exact Or.inr rfl
  | finalizeRun c' r' target pc => cases pc <;> cases h; exact Or.inr rfl
  | createProject | flushRunData | logMetricAtStep | shutdown | idle | returned => cases h

theorem singleThread_of_step {s : World} {i : Nat} {act : WorldAct} {l : ProtocolAct} {q : Protocol}
    (hserial : Serial s) (hone : SingleThreaded s act) (hreq : ReacquiresRunning s act)
    (hm : ProtocolMove s.protocol i l q) (ho : l.Of s i act) : SingleThread s.protocol i l := by
  have hthread : ∀ {j c}, (s.protocol.threads j).client = some c → (s.calls j).client = some c :=
    fun e => thread_client e
  cases ho with
  | start | work => exact ⟨nofun, nofun, nofun⟩
  | @begins request c r hfin =>
    have hcl : some request.client = some c := by
      cases request <;> cases hfin <;> rfl
    exact ⟨fun d e j _ hj => hone d (hcl.trans e) j (hthread hj), nofun, nofun⟩
  | handle =>
    exact ⟨fun d e j _ hj => hone _ e j (hthread hj), fun d q e j hj => hone d (by cases e; rfl) j (hthread hj),
      nofun⟩
  | go hby =>
    rename_i env
    refine ⟨fun c e j hj hc => hj (hserial j i c (hthread hc) (hby.client c e)), fun c r e =>
      absurd e (hby.handles c r),
      ?_⟩
    rintro c r rfl
    obtain ⟨hacq, hfail⟩ := hby.acquires c r rfl
    refine (acquires_cases hacq).imp id fun hre => ?_
    cases hm with
    | register ha hlock => exact hreq (c, r) hre ⟨hacq, hfail, ha, hlock⟩

theorem resumeInv_init (projects : List Project) (runs : List Run) (capacity : Nat → Nat) :
    ResumeInv (World.init projects runs capacity).protocol where
  lock := lockInv_init projects runs capacity
  single := nofun
  settled _ := Thread.settled_free nofun rfl rfl
  running := nofun

/-- Where resuming and finishing calls acquire a writer only for a run that is
running, `resume_run` returns `Ok` on a running run, and a report is admitted
only for a running run. -/
theorem writes_running {projects : List Project} {runs : List Run} {capacity : Nat → Nat}
    {acts : List WorldAct} {s : World}
    (h : exec World.step (World.init projects runs capacity) acts = some s)
    (hm : Meets World.step (fun s act => SingleThreaded s act ∧ ReacquiresRunning s act)
      (World.init projects runs capacity) acts) :
    (∀ i c r pc env t run, s.calls i = .resumeRun c r pc → ReacquiresRunning s (.go i env) →
      s.step (.go i env) = some t → t.calls i = .returned (.ok run) → statusIn t.runs r = some .running) ∧
    ∀ i run, s.reports i run → statusIn s.runs run.runId = some .running := by
  obtain ⟨hserial, hinv⟩ : Serial s ∧ ResumeInv s.protocol := by
    refine exec_inv World.step (I := fun s => Serial s ∧ ResumeInv s.protocol) ?_ hm h
      ⟨nofun, resumeInv_init projects runs capacity⟩
    rintro s act t ⟨hone, hreq⟩ hst ⟨hi, hp⟩
    obtain ⟨j, l, hmove, hof⟩ := world_refines hst
    exact ⟨hi.step hone hst, hp.move (singleThread_of_step hi hone hreq hmove hof) hmove⟩
  have halone : ∀ {i c}, (s.calls i).client = some c → ∀ j, j ≠ i → (s.protocol.threads j).client ≠ some c :=
    fun e j hj e' => hj (hserial j _ _ (thread_client e') e)
  refine ⟨?_, ?_⟩
  · intro i c r pc env t run hc hreq hs ht
    have hthread : s.protocol.threads i = .idle := by show (s.calls i).thread = _; rw [hc]; rfl
    have hcl : (s.calls i).client = some c := by rw [hc]; rfl
    have hret : ∀ {e : EngineError}, ¬ (s.returns i (.error e)).calls i = .returned (.ok run) := by
      intro e he
      cases (Function.update_self (f := s.calls) i _).symm.trans he
    have hgo : ∀ {pc'}, ¬ (s.setCall i (.resumeRun c r pc')).calls i = .returned (.ok run) := by
      intro pc' he
      cases (Function.update_self (f := s.calls) i _).symm.trans he
    simp only [World.step, hc, World.callStep] at hs
    cases pc with
    | ensureWriteable | getRun =>
      simp only [World.resumeRunStep] at hs
      repeat' split at hs
      all_goals first
        | (cases hs; exact absurd ht hret)
        | (cases hs; exact absurd ht hgo)
        | cases hs
    | acquire stored =>
      simp only [World.resumeRunStep] at hs
      split at hs
      · rename_i g a hacq
        cases hs
        rcases acquireRunWriter_ok hacq with ⟨ha, -⟩ | ⟨ha, hlock, hfail, -, -⟩
        · -- the active run is shared with nobody
          have hlive := hinv.live (i := i) (halone hcl) (by rw [hthread]; rfl) ha
          exact hinv.running_quiet (i := i) (halone hcl) (by simp [hthread]) (by rw [hthread]; rfl) ha hlive
        · exact hreq (c, r) (by rw [hc]; rfl) ⟨by rw [hc]; rfl, hfail, ha, hlock⟩
      · cases hs; exact absurd ht hret
  · rintro i run ⟨⟨key, n, v, hc⟩, hsend⟩
    have hthread : s.protocol.threads i = .logging run := by show (s.calls i).thread = _; rw [hc]; rfl
    have hcl : (s.calls i).client = some run.client := by rw [hc]; rfl
    obtain ⟨hrun, -, hadm⟩ := (hinv.lock.threads i).logging run hthread
    have hlive : (s.protocol.registry.active run.activeRun).admission ≠ .terminal := by simp [hadm]
    have hreg := (hinv.lock.attached run hrun hlive).resolve_left (by
      show ¬ (!(s.clients run.client).reporter.sender) = true
      simp [hsend])
    exact hinv.running_quiet (i := i) (halone hcl) (by simp [hthread]) (by rw [hthread]; rfl) hreg hlive

/-! ## A run finished between two steps of resume_run -/

/-- Client `c` is used by thread `c` alone. -/
def OwnThread (s : World) : WorldAct → Prop
  | .start i request => request.client = i ∧ (s.calls i).client = none
  | .runHandle c _ => (s.calls c).client = none
  | _ => True

instance (s : World) : ∀ act, Decidable (OwnThread s act)
  | .start _ _ => inferInstanceAs (Decidable (_ ∧ _ = none))
  | .runHandle _ _ => inferInstanceAs (Decidable (_ = none))
  | .go _ _ | .work _ _ => isTrue trivial

theorem meets_ownThread {C : World → WorldAct → Prop} {projects : List Project} {runs : List Run}
    {capacity : Nat → Nat} {acts : List WorldAct}
    (hm : Meets World.step (fun s act => OwnThread s act ∧ C s act) (World.init projects runs capacity) acts) :
    Meets World.step (fun s act => SingleThreaded s act ∧ C s act) (World.init projects runs capacity) acts := by
  refine meets_of_inv World.step (I := fun s => ∀ i c, (s.calls i).client = some c → i = c) ?_ ?_ hm nofun
  · rintro s act t ⟨hown, -⟩ hs hi j c hj
    rcases calls_key (fun _ _ hk => hk.client) hs hj with hj | ⟨request, rfl, hj⟩
    · exact hi j c hj
    · rw [request_client] at hj
      rw [← hown.1]; exact Option.some.inj hj
  · rintro s act hi ⟨hown, hC⟩
    refine ⟨fun c e j hj => ?_, hC⟩
    cases act with
    | start i request =>
      cases e
      rw [hi j _ hj, hown.1, hown.2] at hj; cases hj
    | runHandle d r =>
      rw [hi j c hj, ← Option.some.inj e, show (s.calls d).client = none from hown] at hj; cases hj
    | go | work => cases e

def storedR : Run := ⟨"r", "p", "n", .running, 0, 0, none⟩

/-- A stored run is resumed and logged to. -/
def resumingRun : List WorldAct := [.start 0 (.resumeRun 0 "r"), .go 0 {}, .go 0 {}]

def resumedRun : List WorldAct :=
  resumingRun ++ [.go 0 {}, .runHandle 0 "r", .start 0 (.logMetricAtStep handleR "k" 0 ⟨0⟩), .go 0 {}]

theorem writes_running_run :
    (∃ s t, exec World.step (World.init [] [storedR] fun _ => 1) resumingRun = some s ∧
      s.step (.go 0 {}) = some t ∧ t.calls 0 = .returned (.ok (some storedR)) ∧
      statusIn t.runs "r" = some .running) ∧
    ∃ s, exec World.step (World.init [] [storedR] fun _ => 1) resumedRun = some s ∧
      s.reports 0 handleR ∧ statusIn s.runs "r" = some .running := by
  refine ⟨?_, ?_⟩
  · have hrun : ∃ s t, exec World.step (World.init [] [storedR] fun _ => 1) resumingRun = some s ∧
        s.calls 0 = .resumeRun 0 "r" (.acquire storedR) ∧ s.runs = [storedR] ∧
        s.step (.go 0 {}) = some t ∧ t.calls 0 = .returned (.ok (some storedR)) := ⟨_, _, rfl, rfl, rfl, rfl, rfl⟩
    obtain ⟨s, t, h, hc, hr, hs, ht⟩ := hrun
    refine ⟨s, t, h, hs, ht, (writes_running h (meets_ownThread (by decide))).1 0 0 "r" _ {} t _ hc ?_ hs ht⟩
    intro k hk _
    rw [hc] at hk; cases hk
    rw [hr]; rfl
  · have hrun : ∃ s, exec World.step (World.init [] [storedR] fun _ => 1) resumedRun = some s ∧
        s.reports 0 handleR := ⟨_, rfl, ⟨"k", 0, ⟨0⟩, rfl⟩, rfl⟩
    obtain ⟨s, h, hr⟩ := hrun
    exact ⟨s, h, hr, (writes_running h (meets_ownThread (by decide))).2 0 handleR hr⟩

/-- Client 1 reads the run as running; client 0 finishes it and releases its
lock; client 1 takes the lock. -/
def lateResumeRun : List WorldAct := List.flatten
  [[.start 0 (.createRun 0 "p" "n" "r")], List.replicate 6 (.go 0 {}),
    [.start 1 (.resumeRun 1 "r"), .go 1 {}, .go 1 {}], [.start 0 (.finishRun 0 "r")],
    List.replicate 15 (.go 0 {})]

theorem late_resume_of_finished : ¬ ∀ projects runs capacity acts s,
    exec World.step (World.init projects runs capacity) acts = some s →
    Meets World.step SingleThreaded (World.init projects runs capacity) acts →
    ∀ i c r pc env t run, s.calls i = .resumeRun c r pc → s.step (.go i env) = some t →
      t.calls i = .returned (.ok run) → statusIn t.runs r = some .running := by
  intro hall
  have hrun : ∃ s t, exec World.step (World.init [⟨"p", "p", 0⟩] [] fun _ => 1) lateResumeRun = some s ∧
      s.calls 1 = .resumeRun 1 "r" (.acquire storedR) ∧ s.step (.go 1 {}) = some t ∧
      t.calls 1 = .returned (.ok (some storedR)) ∧ statusIn t.runs "r" = some .finished :=
    ⟨_, _, rfl, rfl, rfl, rfl, rfl⟩
  obtain ⟨s, t, h, hc, hs, ht, hstatus⟩ := hrun
  have hmeets : Meets World.step SingleThreaded (World.init [⟨"p", "p", 0⟩] [] fun _ => 1) lateResumeRun :=
    meets_mono World.step (fun _ _ hC => hC.1) (meets_ownThread (C := fun _ _ => True) (by decide))
  have := hall _ _ _ _ s h hmeets 1 1 "r" _ {} t _ hc hs ht
  rw [hstatus] at this; cases this

end Pulseon
