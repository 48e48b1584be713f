import Pulseon.ClientSteps

/-!
# Uniqueness of project ids

`create_project` checks that the project is absent and inserts it later, under
the connection lock each time but not in between. The table has no constraint:
ids stay unique as long as no other call for the id has passed its check when a
call makes its own.
-/

namespace Pulseon

def Call.checks : Call → Option ProjectId
  | .createProject _ p _ .projectExists => some p
  | _ => none

def Call.inserts : Call → Option ProjectId
  | .createProject _ p _ .readClock | .createProject _ p _ (.insertProject _) => some p
  | _ => none

def createsProject (p : ProjectId) (s : World) : WorldAct → World → Bool
  | .go i _, t => (s.calls i).project == some p && (t.calls i).isOk
  | _, _ => false

/-- The statements of `create_project` and its clock do not fail. -/
def ProjectStatements (s : World) : WorldAct → Prop
  | .go i env => (s.calls i).project ≠ none → env.fails = false
  | _ => True

instance (s : World) : ∀ act, Decidable (ProjectStatements s act)
  | .go i env => inferInstanceAs (Decidable ((s.calls i).project ≠ none → env.fails = false))
  | .start _ _ | .runHandle _ _ | .work _ _ => isTrue trivial

/-- When a call looks for its project, no other call has found it absent and not inserted it. -/
def ChecksAlone (s : World) : WorldAct → Prop
  | .go i _ => ∀ p, (s.calls i).checks = some p → ∀ j, (s.calls j).inserts ≠ some p
  | _ => True

structure ProjectInv (s : World) : Prop where
  absent : ∀ i p, (s.calls i).inserts = some p → p ∉ s.projects.map Project.projectId
  alone : ∀ i j p, (s.calls i).inserts = some p → (s.calls j).inserts = some p → i = j
  unique : (s.projects.map Project.projectId).Nodup

theorem projectExists_iff (s : World) (p : ProjectId) :
    s.projectExists p = true ↔ p ∈ s.projects.map Project.projectId := by
  simp [World.projectExists]

theorem project_of_inserts {k : Call} {p : ProjectId} (h : k.inserts = some p) : k.project = some p := by
  cases k with
  | createProject c q name pc => cases pc <;> first | exact h | cases h
  | _ => cases h

/-! ## Steps -/

section
variable {s t : World} {act : WorldAct} {i : Nat} {env : Env}

/-- A call that has found its project absent inserts it, and nothing else changes the projects. -/
theorem projects_step (hs : s.step act = some t) : t.projects = s.projects ∨
    ∃ i env c p name createdAt, act = .go i env ∧ s.calls i = .createProject c p name (.insertProject createdAt) ∧
      t.projects = s.projects ++ [⟨p, name, createdAt⟩] ∧ t.calls i = .returned (.ok none) := by
  cases act with
  | start i request =>
    simp only [World.step] at hs
    split at hs
    · cases hs
    · cases hs; exact Or.inl rfl
  | runHandle d r => cases hs; exact Or.inl rfl
  | work d act =>
    simp only [World.step, World.workStep] at hs
    split at hs
    · cases hs
    · obtain ⟨r, -, rfl⟩ := Option.map_eq_some_iff.mp hs; exact Or.inl rfl
  | go i env =>
    simp only [World.step] at hs
    cases hk : s.calls i with
    | createProject c p name pc =>
      rw [hk] at hs
      cases pc with
      | insertProject createdAt =>
        simp only [World.callStep, World.createProjectStep] at hs
        repeat' split at hs
        · cases hs
        · cases hs; exact Or.inl rfl
        · cases hs
          exact Or.inr ⟨i, env, c, p, name, createdAt, rfl, hk, rfl, Function.update_self ..⟩
      | _ =>
        left
        simp only [World.callStep, World.createProjectStep] at hs
        repeat' split at hs
        all_goals first | (cases hs; rfl) | cases hs
    | createRun c p name r pc =>
      left
      rw [hk] at hs
      cases pc <;> simp only [World.callStep, World.createRunStep] at hs <;> repeat' split at hs
      all_goals first | (cases hs; rfl) | cases hs
    | resumeRun c r pc =>
      left
      rw [hk] at hs
      cases pc <;> simp only [World.callStep, World.resumeRunStep] at hs <;> repeat' split at hs
      all_goals first | (cases hs; rfl) | cases hs
    | finalizeRun c r target pc =>
      left
      rw [hk] at hs
      cases pc with
      | drain a d =>
        simp only [World.callStep, World.finalizeRunStep] at hs
        split at hs
        · cases hs; rfl
        · cases hs; rfl
        · obtain ⟨d', -, rfl⟩ := Option.map_eq_some_iff.mp hs; rfl
      | _ =>
        simp only [World.callStep, World.finalizeRunStep] at hs
        repeat' split at hs
        all_goals first | (cases hs; rfl) | cases hs
    | flushRunData c r pc =>
      left
      rw [hk] at hs
      cases pc <;> simp only [World.callStep, World.flushRunDataStep] at hs <;> repeat' split at hs
      all_goals first | (cases hs; rfl) | cases hs
    | logMetricAtStep run key n v pc =>
      left
      rw [hk] at hs
      cases pc with
      | enter =>
        simp only [World.callStep, World.logMetricAtStepStep] at hs
        repeat' split at hs
        all_goals first | (cases hs; rfl) | cases hs
      | report =>
        simp only [World.callStep, World.logMetricAtStepStep] at hs
        split at hs
        · obtain ⟨r, -, rfl⟩ := Option.map_eq_some_iff.mp hs
          split <;> rfl
        · split at hs
          · obtain ⟨r, -, rfl⟩ := Option.map_eq_some_iff.mp hs
            split <;> rfl
          · cases hs
    | shutdown c pc =>
      left
      rw [hk] at hs
      cases pc with
      | reporter d =>
        simp only [World.callStep] at hs
        unfold World.shutdownStep at hs
        split at hs
        · cases hs; rfl
        · cases hs; rfl
        · rename_i he
          cases he
          obtain ⟨x, -, rfl⟩ := Option.map_eq_some_iff.mp hs; rfl
        all_goals (rename_i he; cases he)
      | releaseAll result => cases result <;> (cases hs; rfl)
      | store => cases hs; rfl
    | idle => rw [hk] at hs; cases hs
    | returned => rw [hk] at hs; cases hs

theorem inserts_go (hs : s.step (.go i env) = some t) {p : ProjectId} (ht : (t.calls i).inserts = some p) :
    (s.calls i).inserts = some p ∨ (s.calls i).checks = some p ∧ p ∉ s.projects.map Project.projectId := by
  have hself : ∀ {s' : World} {k : Call}, (s'.setCall i k).calls i = k := Function.update_self ..
  have hret : ∀ {s' : World} {result : Except EngineError (Option Run)},
    ((s'.returns i result).calls i).inserts = none := by
    intro s' result
    rw [show (s'.returns i result).calls i = .returned result from hself]; rfl
  obtain ⟨k', hcalls, hcont⟩ := calls_go hs
  have hproj : (s.calls i).project = some p := by
    refine hcont.project p (project_of_inserts ?_)
    rw [← ht, hcalls, Function.update_self]
  simp only [World.step] at hs
  cases hk : s.calls i with
  | createProject c p' name pc =>
    rw [hk] at hs
    cases pc with
    | projectExists =>
      simp only [World.callStep, World.createProjectStep] at hs
      repeat' split at hs
      · cases hs
      · cases hs; rw [hret] at ht; cases ht
      · cases hs; rw [hret] at ht; cases ht
      · rename_i hex
        cases hs
        rw [hself] at ht; cases ht
        exact Or.inr ⟨rfl, fun hm => hex ((projectExists_iff s p).mpr hm)⟩
    | _ =>
      left
      simp only [World.callStep, World.createProjectStep] at hs
      repeat' split at hs
      all_goals first
        | (cases hs; rw [hself] at ht; exact ht)
        | (cases hs; rw [hret] at ht; cases ht)
        | cases hs
  | _ => rw [hk] at hproj; cases hproj

theorem ProjectInv.step (h : ProjectInv s) (hc : ChecksAlone s act) (hs : s.step act = some t) : ProjectInv t := by
  -- which calls are past their check
  have hpast : ∀ j p, (t.calls j).inserts = some p → (s.calls j).inserts = some p ∨
      p ∉ s.projects.map Project.projectId ∧ ∀ k, k ≠ j → (s.calls k).inserts ≠ some p ∧ t.calls k = s.calls k := by
    intro j p hj
    rcases calls_step hs j with e | ⟨request, -, -, e⟩ | ⟨env, rfl, -⟩
    · rw [e] at hj; exact Or.inl hj
    · rw [e] at hj
      cases request <;> cases hj
    · rcases inserts_go hs hj with hi | ⟨hchk, habs⟩
      · exact Or.inl hi
      · obtain ⟨k', hcalls, -⟩ := calls_go hs
        refine Or.inr ⟨habs, fun k hk => ⟨hc p hchk k, ?_⟩⟩
        rw [hcalls, Function.update_of_ne hk]
  have halone : ∀ i j p, (t.calls i).inserts = some p → (t.calls j).inserts = some p → i = j := by
    intro i j p hi hj
    by_contra hij
    rcases hpast i p hi with hi' | ⟨-, hi'⟩
    · rcases hpast j p hj with hj' | ⟨-, hj'⟩
      · exact hij (h.alone i j p hi' hj')
      · exact (hj' i hij).1 hi'
    · have hji : j ≠ i := fun e => hij e.symm
      rw [(hi' j hji).2] at hj
      exact (hi' j hji).1 hj
  have habsent : ∀ i p, (t.calls i).inserts = some p → p ∉ s.projects.map Project.projectId := by
    intro i p hi
    rcases hpast i p hi with hi | ⟨habs, -⟩
    · exact h.absent i p hi
    · exact habs
  rcases projects_step hs with he | ⟨i, env, c, p, name, createdAt, rfl, hk, he, hret⟩
  · refine ⟨?_, halone, ?_⟩
    · rw [he]; exact habsent
    · rw [he]; exact h.unique
  · have hi : (s.calls i).inserts = some p := by rw [hk]; rfl
    have hids : t.projects.map Project.projectId = s.projects.map Project.projectId ++ [p] := by rw [he]; simp
    refine ⟨fun j q hj => ?_, halone, ?_⟩
    · rw [hids]
      intro hq
      rcases List.mem_append.mp hq with hq | hq
      · exact habsent j q hj hq
      · -- the call that has inserted the project has returned
        rw [List.mem_singleton.mp hq] at hj
        have hji : j = i := by
          obtain ⟨k', hcalls, -⟩ := calls_go hs
          by_contra hji
          rw [hcalls, Function.update_of_ne hji] at hj
          exact hji (h.alone j i p hj hi)
        rw [hji, hret] at hj; cases hj
    · rw [hids]
      simpa [List.nodup_append] using ⟨h.unique, by simpa using h.absent i p hi⟩

theorem projectInv_init (projects : List Project) (runs : List Run) (capacity : Nat → Nat)
    (hn : (projects.map Project.projectId).Nodup) : ProjectInv (World.init projects runs capacity) :=
  ⟨nofun, nofun, hn⟩

theorem creates_inserts {p : ProjectId} (hs : s.step act = some t) (hm : createsProject p s act t = true) :
    ∃ i, (s.calls i).inserts = some p ∧ p ∈ t.projects.map Project.projectId := by
  cases act with
  | go i env =>
    simp only [createsProject, Bool.and_eq_true, beq_iff_eq] at hm
    obtain ⟨hp, hok⟩ := hm
    have hself : ∀ {s' : World} {k : Call}, (s'.setCall i k).calls i = k := Function.update_self ..
    refine ⟨i, ?_⟩
    simp only [World.step] at hs
    cases hk : s.calls i with
    | createProject c p' name pc =>
      rw [hk] at hs hp
      cases hp
      cases pc with
      | insertProject createdAt =>
        simp only [World.callStep, World.createProjectStep] at hs
        repeat' split at hs
        · cases hs
        · cases hs
          rw [show (s.returns i _).calls i = _ from hself] at hok; cases hok
        · cases hs
          refine ⟨rfl, ?_⟩
          show p ∈ (s.projects ++ [_]).map Project.projectId
          simp
      | _ =>
        exfalso
        simp only [World.callStep, World.createProjectStep] at hs
        repeat' split at hs
        all_goals first
          | (cases hs; rw [hself] at hok; cases hok)
          | (cases hs; rw [show (s.returns i _).calls i = _ from hself] at hok; cases hok)
          | cases hs
    | _ => rw [hk] at hp; cases hp
  | _ => cases hm

/-- A `create_project` whose statements do not fail returns `Ok`, finds the
project or finds the client shut down. -/
theorem createProject_returns {c : Nat} {p : ProjectId} {name : String} {pc : CreateProjectPc}
    {result : Except EngineError (Option Run)} (hk : s.calls i = .createProject c p name pc)
    (he : env.fails = false) (hs : s.step (.go i env) = some t) (ht : t.calls i = .returned result) :
    result = .ok none ∨ result = .error (.projectAlreadyExists p) ∨
      (s.clients c).isShutdown = true ∧ result = .error .clientClosed := by
  have hself : ∀ {s' : World} {k : Call}, (s'.setCall i k).calls i = k := Function.update_self ..
  simp only [World.step, hk] at hs
  cases pc with
  | ensureWriteable =>
    simp only [World.callStep, World.createProjectStep] at hs
    split at hs
    · rename_i hsd
      cases hs
      rw [show (s.returns i _).calls i = _ from hself] at ht; cases ht
      exact Or.inr (Or.inr ⟨hsd, rfl⟩)
    · cases hs; rw [hself] at ht; cases ht
  | projectExists =>
    simp only [World.callStep, World.createProjectStep, he] at hs
    repeat' split at hs
    · cases hs
    · rename_i hf; cases hf
    · cases hs
      rw [show (s.returns i _).calls i = _ from hself] at ht; cases ht
      exact Or.inr (Or.inl rfl)
    · cases hs; rw [hself] at ht; cases ht
  | readClock =>
    simp only [World.callStep, World.createProjectStep, he] at hs
    cases hs
    rw [hself] at ht; cases ht
  | insertProject createdAt =>
    simp only [World.callStep, World.createProjectStep, he] at hs
    repeat' split at hs
    · cases hs
    · rename_i hf; cases hf
    · cases hs
      rw [show (World.returns _ i _).calls i = _ from hself] at ht; cases ht
      exact Or.inl rfl

end

/-- As long as every `create_project` looks for its project alone, no project id
is stored twice, at most one call for an id returns `Ok` and the others find the
project. -/
theorem project_ids_unique {projects : List Project} {runs : List Run} {capacity : Nat → Nat}
    {acts : List WorldAct} {s : World} (h : exec World.step (World.init projects runs capacity) acts = some s)
    (hn : (projects.map Project.projectId).Nodup)
    (hm : Meets World.step (fun s act => ProjectStatements s act ∧ ChecksAlone s act)
      (World.init projects runs capacity) acts) :
    (s.projects.map Project.projectId).Nodup ∧
      (∀ p, tally World.step (createsProject p) (World.init projects runs capacity) acts ≤ 1) ∧
      ∀ i c p name pc env t result, s.calls i = .createProject c p name pc → env.fails = false →
        s.step (.go i env) = some t → t.calls i = .returned result →
          result = .ok none ∨ result = .error (.projectAlreadyExists p) ∨
            (s.clients c).isShutdown = true ∧ result = .error .clientClosed := by
  have hinit := projectInv_init projects runs capacity hn
  have hstep : ∀ s act t, ProjectStatements s act ∧ ChecksAlone s act → s.step act = some t → ProjectInv s →
      ProjectInv t := fun s act t hc hs hi => hi.step hc.2 hs
  refine ⟨(exec_inv World.step hstep hm h hinit).unique, fun p => ?_, fun i c p name pc env t result hk he hs ht =>
    createProject_returns hk he hs ht⟩
  refine (tally_le_one World.step (B := fun s => p ∈ s.projects.map Project.projectId) hstep ?_ ?_ hm hinit).1
  · intro s act t _ hs hi hmark
    obtain ⟨i, hins, hmem⟩ := creates_inserts hs hmark
    exact ⟨hi.absent i p hins, hmem⟩
  · intro s act t hs hmem
    rcases projects_step hs with he | ⟨i, env, c, q, name, createdAt, -, -, he, -⟩
    · rw [he]; exact hmem
    · rw [he, List.map_append]
      exact List.mem_append_left _ hmem

/-- Thread 0 creates the project twice. -/
def twiceCreated : List WorldAct := List.flatten
  [[.start 0 (.createProject 0 "p" "n")], List.replicate 4 (.go 0 {}),
    [.start 0 (.createProject 0 "p" "n"), .go 0 {}]]

/-- Only thread 0 takes steps, and its statements do not fail. -/
def FirstThread (_ : World) (act : WorldAct) : Prop :=
  match act with
  | .start i _ => i = 0
  | .go i env => i = 0 ∧ env.fails = false
  | _ => False

instance (s : World) : ∀ act, Decidable (FirstThread s act)
  | .start _ _ => inferInstanceAs (Decidable (_ = 0))
  | .go _ _ => inferInstanceAs (Decidable (_ ∧ _))
  | .runHandle _ _ | .work _ _ => isFalse id

theorem project_ids_unique_run : ∃ s t, exec World.step (World.init [] [] fun _ => 1) twiceCreated = some s ∧
    s.projects.length = 1 ∧ s.step (.go 0 {}) = some t ∧
    t.calls 0 = .returned (.error (.projectAlreadyExists "p")) ∧ (s.projects.map Project.projectId).Nodup := by
  obtain ⟨s, t, h, hp, hs, ht⟩ : ∃ s t, exec World.step (World.init [] [] fun _ => 1) twiceCreated = some s ∧
      s.projects.length = 1 ∧ s.step (.go 0 {}) = some t ∧
      t.calls 0 = .returned (.error (.projectAlreadyExists "p")) := ⟨_, _, rfl, rfl, rfl, rfl⟩
  refine ⟨s, t, h, hp, hs, ht, (project_ids_unique h (by simp) ?_).1⟩
  refine meets_of_inv World.step (C := FirstThread) (I := fun s => ∀ i, i ≠ 0 → s.calls i = .idle) ?_ ?_ (by decide)
    fun _ _ => rfl
  · intro s act t hc hs hi
    refine calls_idle hs (fun i e => ?_) hi
    cases act with
    | start j request => cases e; exact hc
    | go j env => cases e; exact hc.1
    | runHandle | work => cases e
  · intro s act hi hc
    cases act with
    | go j env =>
      refine ⟨fun _ => hc.2, fun p hp k hk => ?_⟩
      by_cases hk0 : k = 0
      · rw [hk0, ← hc.1] at hk
        generalize s.calls j = c at hp hk
        cases c with
        | createProject c q name pc =>
          cases pc with
          | projectExists => cases hk
          | _ => cases hp
        | _ => cases hp
      · rw [hi k hk0] at hk; cases hk
    | start | runHandle | work => exact ⟨trivial, trivial⟩

/-- Two threads look for the project before either inserts it. -/
def racingCreations : List WorldAct := List.flatten
  [[.start 0 (.createProject 0 "p" "n"), .start 1 (.createProject 0 "p" "m")], List.replicate 2 (.go 0 {}),
    List.replicate 2 (.go 1 {}), List.replicate 2 (.go 0 {}), List.replicate 2 (.go 1 {})]

theorem project_created_twice : ¬ ∀ projects runs capacity acts s,
    exec World.step (World.init projects runs capacity) acts = some s →
    (projects.map Project.projectId).Nodup →
    Meets World.step ProjectStatements (World.init projects runs capacity) acts →
    (s.projects.map Project.projectId).Nodup := by
  intro hall
  obtain ⟨s, h, hp⟩ : ∃ s, exec World.step (World.init [] [] fun _ => 1) racingCreations = some s ∧
      s.projects.map Project.projectId = ["p", "p"] := ⟨_, rfl, rfl⟩
  have hn := hall [] [] _ racingCreations s h (by simp) (by decide)
  rw [hp] at hn
  simp at hn

end Pulseon
