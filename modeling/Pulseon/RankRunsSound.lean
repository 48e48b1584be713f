import Pulseon.EvidenceSound
import Pulseon.FinalizeSound
import Pulseon.RankingSound

/-!
# Ranking stored runs

What `rank_runs` and `best_eligible_run` return for distinct existing runs: the
eligible ones sorted, with their competition ranks, and the others in request
order. The eligible part does not depend on the order of the request.
-/

namespace Pulseon

def ObjectiveEvidence.Eligible (e : ObjectiveEvidence) : Prop :=
  e.runStatus = .finished ∧ ∃ v, e.lastValueF64 = some v ∧ v.isFinite = true

def RankingEntry.beats (direction : ObjectiveDirection) (x e : RankingEntry) : Bool :=
  match x.evidence.lastValueF64, e.evidence.lastValueF64 with
  | some v, some w => direction.better v w
  | _, _ => false

def Store.createdAt (store : Store) (runId : RunId) : Int :=
  ((store.runs.find? fun run => run.runId == runId).map Run.createdAt).getD 0

/-- A better value, or an equal one of a run created earlier, or at the same
time with a lesser id. -/
def Store.Precedes (store : Store) (direction : ObjectiveDirection) (x y : RankingEntry) : Prop :=
  ∃ v w, x.evidence.lastValueF64 = some v ∧ y.evidence.lastValueF64 = some w ∧
    (direction.better v w = true ∨ v.value = w.value ∧
      (store.createdAt x.evidence.runId < store.createdAt y.evidence.runId ∨
        store.createdAt x.evidence.runId = store.createdAt y.evidence.runId ∧ x.evidence.runId < y.evidence.runId))

/-- The entries of a ranking: the eligible runs and the others. -/
structure Ranked (store : Store) (objective : ObjectiveMetric) (runIds : List RunId)
    (ranked unranked : List RankingEntry) : Prop where
  perm : ((ranked ++ unranked).map fun e => e.evidence.runId).Perm runIds
  evidence : ∀ e ∈ ranked ++ unranked, ∃ run ∈ store.runs, e.evidence.runId = run.runId ∧
    e.evidence.runStatus = run.status ∧ e.evidence.lastValueF64 = store.lastValue objective.metricKey run
  eligible : ∀ e ∈ ranked, e.evidence.Eligible
  ineligible : ∀ e ∈ unranked, ¬ e.evidence.Eligible
  sorted : ranked.Pairwise (store.Precedes objective.direction)
  ranks : ∀ e ∈ ranked, e.rank = some (1 + ranked.countP fun x => x.beats objective.direction e)
  no_rank : ∀ e ∈ unranked, e.rank = none
  request_order : (unranked.map fun e => e.evidence.runId).Sublist runIds

/-! ## The candidates of stored runs -/

def candidatesOf (store : Store) (objective : ObjectiveMetric) (runs : List Run) : List RankingCandidate :=
  numberCandidates (runs.map fun run => (run, store.evidenceOf objective run))

section
variable {store : Store} {objective : ObjectiveMetric} {runs : List Run}

theorem candidatesOf_core (store : Store) (objective : ObjectiveMetric) (runs : List Run) :
    (candidatesOf store objective runs).map RankingCandidate.core =
    runs.map fun run => (store.evidenceOf objective run, run.createdAt) := by
  unfold candidatesOf numberCandidates
  rw [List.map_map]
  have hfst : ∀ l : List (Run × ObjectiveEvidence), (l.zipIdx.map fun r => (r.1.2, r.1.1.createdAt)) =
      (l.zipIdx.map Prod.fst).map fun p => (p.2, p.1.createdAt) := fun l => by rw [List.map_map]; rfl
  show ((runs.map fun run => (run, store.evidenceOf objective run)).zipIdx.map fun r =>
    (r.1.2, r.1.1.createdAt)) = _
  rw [hfst, List.zipIdx_map_fst, List.map_map]
  rfl

theorem candidatesOf_runIds (store : Store) (objective : ObjectiveMetric) (runs : List Run) :
    ((candidatesOf store objective runs).map fun c => c.evidence.runId) = runs.map Run.runId := by
  have h :=
    congrArg (List.map fun r : ObjectiveEvidence × Int => r.1.runId) (candidatesOf_core store objective runs)
  rw [List.map_map, List.map_map] at h
  exact h

theorem candidatesOf_numbered (hd : (runs.map Run.runId).Nodup) : Numbered (candidatesOf store objective runs) := by
  refine ⟨by rw [candidatesOf_runIds]; exact hd, ?_⟩
  rw [← List.pairwise_map (f := fun c : RankingCandidate => c.ordinal) (R := (· < ·))]
  have hsnd : ((candidatesOf store objective runs).map fun c => c.ordinal) = List.range runs.length := by
    unfold candidatesOf numberCandidates
    rw [List.map_map]
    show (List.zipIdx _).map Prod.snd = _
    simp [List.range_eq_range']
  rw [hsnd]
  exact List.pairwise_lt_range

theorem mem_candidatesOf {c : RankingCandidate} (h : c ∈ candidatesOf store objective runs) :
    ∃ run ∈ runs, c.evidence = store.evidenceOf objective run ∧ c.createdAt = run.createdAt := by
  have hcore : c.core ∈ (candidatesOf store objective runs).map RankingCandidate.core := List.mem_map_of_mem h
  rw [candidatesOf_core] at hcore
  obtain ⟨run, hrun, e⟩ := List.mem_map.mp hcore
  obtain ⟨h1, h2⟩ := Prod.mk.inj e
  exact ⟨run, hrun, h1.symm, h2.symm⟩

variable (hn : (store.runs.map Run.runId).Nodup) (hmem : ∀ run ∈ runs, run ∈ store.runs)
include hn

theorem createdAt_of_mem {run : Run} (hrun : run ∈ store.runs) : store.createdAt run.runId = run.createdAt := by
  unfold Store.createdAt
  rw [(find_key_iff hn).mpr ⟨hrun, rfl⟩]
  rfl

include hmem

theorem eligible_iff {c : RankingCandidate} (h : c ∈ candidatesOf store objective runs) :
    c.eligible = true ↔ c.evidence.Eligible := by
  obtain ⟨run, hrun, he, -⟩ := mem_candidatesOf h
  unfold RankingCandidate.eligible ObjectiveEvidence.Eligible
  rw [Option.isSome_iff_exists, he]
  simp only [eligibleValue_evidenceOf hn (hmem run hrun), evidenceOf_lastValue hn (hmem run hrun)]
  constructor
  · rintro ⟨v, hst, hv, hfin⟩
    exact ⟨hst, v, hv, hfin⟩
  · rintro ⟨hst, v, hv, hfin⟩
    exact ⟨v, hst, hv, hfin⟩

end

/-! ## The entries of stored runs -/

def rankedOf (direction : ObjectiveDirection) (candidates : List RankingCandidate) : List RankingEntry :=
  (orderBy (rankKey direction) (candidates.filter RankingCandidate.eligible)).map (rankedEntry direction candidates)

def unrankedOf (direction : ObjectiveDirection) (candidates : List RankingCandidate) : List RankingEntry :=
  (candidates.filter fun c => !c.eligible).map (rankedEntry direction candidates)

section
variable {objective : ObjectiveMetric} {direction : ObjectiveDirection} {candidates others : List RankingCandidate}

theorem rankedOf_append (h : Numbered candidates) :
    rankedOf direction candidates ++ unrankedOf direction candidates =
    (orderBy (rankKey direction) candidates).map (rankedEntry direction candidates) := by
  rw [h.sorted, List.map_append]; rfl

theorem rankCandidates_eq (h : Numbered candidates) : rankCandidates objective candidates =
    ⟨objective, rankedOf objective.direction candidates ++ unrankedOf objective.direction candidates⟩ := by
  rw [rankedOf_append h, ← rankCandidates_entries]; rfl

theorem mem_rankedOf {e : RankingEntry} (h : e ∈ rankedOf direction candidates) : ∃ c ∈ candidates, ∃ v,
    eligibleValue c.evidence = some v ∧ e = ⟨c.evidence, some (1 + cheaper direction candidates v)⟩ := by
  obtain ⟨c, hc, rfl⟩ := List.mem_map.mp h
  rw [mem_orderBy, List.mem_filter] at hc
  obtain ⟨v, hv⟩ := Option.isSome_iff_exists.mp hc.2
  exact ⟨c, hc.1, v, hv, by rw [rankedEntry, hv]; rfl⟩

theorem mem_unrankedOf {e : RankingEntry} (h : e ∈ unrankedOf direction candidates) :
    ∃ c ∈ candidates, c.eligible = false ∧ e = ⟨c.evidence, none⟩ := by
  obtain ⟨c, hc, rfl⟩ := List.mem_map.mp h
  obtain ⟨hmem, he⟩ := List.mem_filter.mp hc
  have hfalse : c.eligible = false := by simpa using he
  exact ⟨c, hmem, hfalse, by rw [rankedEntry, eligibleValue_eq_none hfalse]; rfl⟩

/-- A candidate's betters are the entries that beat its entry. -/
theorem cheaper_eq_beats {c : RankingCandidate} {v : F64} (hc : eligibleValue c.evidence = some v)
    (k : Option Nat) :
    cheaper direction candidates v = (rankedOf direction candidates).countP fun x =>
      x.beats direction ⟨c.evidence, k⟩ := by
  unfold rankedOf cheaper
  rw [List.countP_map, (orderBy_perm _ _).countP_eq, List.countP_filter]
  refine List.countP_congr fun x _ => ?_
  have hv := (eligibleValue_finite hc).2
  cases hx : eligibleValue x.evidence with
  | none => simp [RankingCandidate.eligible, hx]
  | some u =>
    have hu := (eligibleValue_finite hx).2
    simp [RankingCandidate.eligible, hx, RankingEntry.beats, rankedEntry, hu, hv]

/-- The entry of a core, given the betters of every value. -/
def coreEntry (betters : F64 → Nat) (r : ObjectiveEvidence × Int) : RankingEntry :=
  ⟨r.1, (eligibleValue r.1).map fun v => 1 + betters v⟩

theorem rankedEntry_core : rankedEntry direction candidates =
    coreEntry (cheaper direction candidates) ∘ RankingCandidate.core := rfl

theorem cheaper_perm (h : (others.map RankingCandidate.core).Perm (candidates.map RankingCandidate.core)) :
    cheaper direction others = cheaper direction candidates := by
  have hcore : ∀ (l : List RankingCandidate) (v : F64), cheaper direction l v =
      (l.map RankingCandidate.core).countP fun r => (eligibleValue r.1).any fun u => direction.better u v :=
    fun l v => by rw [List.countP_map]; rfl
  funext v
  rw [hcore, hcore]
  exact h.countP_eq _

theorem rankedOf_perm (h : Numbered candidates) (h' : Numbered others)
    (hperm : (others.map RankingCandidate.core).Perm (candidates.map RankingCandidate.core)) :
    rankedOf direction others = rankedOf direction candidates := by
  have hcore := h.eligible_core direction h' hperm
  unfold rankedOf
  rw [rankedEntry_core, rankedEntry_core, cheaper_perm hperm, ← List.map_map, ← List.map_map, hcore]

theorem unrankedOf_perm (hperm : (others.map RankingCandidate.core).Perm (candidates.map RankingCandidate.core)) :
    (unrankedOf direction others).Perm (unrankedOf direction candidates) := by
  have hfilter : ∀ l : List RankingCandidate, (l.filter fun c => !c.eligible).map RankingCandidate.core =
      (l.map RankingCandidate.core).filter fun r => !(eligibleValue r.1).isSome := by
    intro l
    rw [List.filter_map]; rfl
  unfold unrankedOf
  rw [rankedEntry_core, rankedEntry_core, cheaper_perm hperm, ← List.map_map, ← List.map_map, hfilter, hfilter]
  exact (hperm.filter _).map _

end

section
variable {store : Store} {objective : ObjectiveMetric} {runs : List Run} {runIds : List RunId}
variable (hn : (store.runs.map Run.runId).Nodup) (hmem : ∀ run ∈ runs, run ∈ store.runs) (hd : runIds.Nodup)
  (hids : runs.map Run.runId = runIds)
include hn hmem hd hids

theorem rankedOf_sorted : (rankedOf objective.direction (candidatesOf store objective runs)).Pairwise
    (store.Precedes objective.direction) := by
  have hnum : Numbered (candidatesOf store objective runs) := candidatesOf_numbered (hids ▸ hd)
  unfold rankedOf
  rw [List.pairwise_map]
  refine (orderBy_strict _ ((List.filter_sublist.map _).nodup hnum.keys)).imp_of_mem fun {x y} hx hy hlt => ?_
  rw [mem_orderBy, List.mem_filter] at hx hy
  rw [rankKey_core hx.2, rankKey_core hy.2] at hlt
  have hcore := Sum.Lex.inl_lt_inl_iff.mp hlt
  obtain ⟨v, hv⟩ := Option.isSome_iff_exists.mp hx.2
  obtain ⟨w, hw⟩ := Option.isSome_iff_exists.mp hy.2
  have hvfin := eligibleValue_finite hv
  have hwfin := eligibleValue_finite hw
  have hcreated : ∀ {c : RankingCandidate}, c ∈ candidatesOf store objective runs →
      store.createdAt c.evidence.runId = c.createdAt := by
    intro c hc
    obtain ⟨run, hrun, he, hcr⟩ := mem_candidatesOf hc
    rw [he, hcr]
    exact createdAt_of_mem hn (hmem run hrun)
  refine ⟨v, w, hvfin.2, hwfin.2, ?_⟩
  rw [better_iff hvfin.1 hwfin.1, ← cost_eq_iff hvfin.1 hwfin.1 objective.direction]
  simp only [rankedEntry, hcreated hx.1, hcreated hy.1]
  simpa [coreKey, RankingCandidate.core, hv, hw, Prod.Lex.toLex_lt_toLex] using hcore

theorem ranked_of_runs (objective : ObjectiveMetric) : Ranked store objective runIds
    (rankedOf objective.direction (candidatesOf store objective runs))
    (unrankedOf objective.direction (candidatesOf store objective runs)) := by
  have hnum : Numbered (candidatesOf store objective runs) := candidatesOf_numbered (hids ▸ hd)
  have hsource : ∀ e ∈ rankedOf objective.direction (candidatesOf store objective runs) ++
      unrankedOf objective.direction (candidatesOf store objective runs),
      ∃ c ∈ candidatesOf store objective runs, e.evidence = c.evidence := by
    intro e he
    rcases List.mem_append.mp he with he | he
    · obtain ⟨c, hc, v, -, rfl⟩ := mem_rankedOf he
      exact ⟨c, hc, rfl⟩
    · obtain ⟨c, hc, -, rfl⟩ := mem_unrankedOf he
      exact ⟨c, hc, rfl⟩
  constructor
  · rw [rankedOf_append hnum, List.map_map, ← hids, ← candidatesOf_runIds store objective]
    exact (orderBy_perm _ _).map _
  · intro e he
    obtain ⟨c, hc, hev⟩ := hsource e he
    obtain ⟨run, hrun, hce, -⟩ := mem_candidatesOf hc
    rw [hev, hce]
    exact ⟨run, hmem run hrun, rfl, rfl, evidenceOf_lastValue hn (hmem run hrun)⟩
  · intro e he
    obtain ⟨c, hc, v, hv, rfl⟩ := mem_rankedOf he
    exact (eligible_iff hn hmem hc).mp (Option.isSome_iff_exists.mpr ⟨v, hv⟩)
  · intro e he
    obtain ⟨c, hc, hfalse, rfl⟩ := mem_unrankedOf he
    intro h
    rw [(eligible_iff hn hmem hc).mpr h] at hfalse
    cases hfalse
  · exact rankedOf_sorted hn hmem hd hids
  · intro e he
    obtain ⟨c, hc, v, hv, rfl⟩ := mem_rankedOf he
    rw [← cheaper_eq_beats hv]
  · intro e he
    obtain ⟨c, -, -, rfl⟩ := mem_unrankedOf he
    rfl
  · have hsub : ((candidatesOf store objective runs).filter fun c => !c.eligible).Sublist
        (candidatesOf store objective runs) := List.filter_sublist
    rw [← hids, ← candidatesOf_runIds store objective, unrankedOf, List.map_map]
    exact hsub.map _

end

/-! ## rank_runs and best_eligible_run -/

theorem firstDuplicate_eq_none {seen runIds : List RunId} (hd : runIds.Nodup) (hs : ∀ r ∈ runIds, r ∉ seen) :
    firstDuplicate seen runIds = none := by
  induction runIds generalizing seen with
  | nil => rfl
  | cons r rest ih =>
    rw [List.nodup_cons] at hd
    have hr : seen.contains r = false := by simpa using hs r (List.mem_cons_self ..)
    rw [firstDuplicate, hr]
    refine ih hd.2 fun x hx hmem => ?_
    rcases List.mem_cons.mp hmem with rfl | hmem
    · exact hd.1 hx
    · exact hs x (List.mem_cons_of_mem _ hx) hmem

section
variable {store : Store} {objective : ObjectiveMetric} {runIds : List RunId}

theorem rankRuns_candidates (hn : (store.runs.map Run.runId).Nodup) (hd : runIds.Nodup)
    (hex : ∀ r ∈ runIds, ∃ run ∈ store.runs, run.runId = r) (objective : ObjectiveMetric) :
    ∃ runs : List Run, runs.map Run.runId = runIds ∧ (∀ run ∈ runs, run ∈ store.runs) ∧
      rankRuns store runIds objective = .ok (rankCandidates objective (candidatesOf store objective runs)) := by
  obtain ⟨runs, hev, hids, hmem⟩ := rankingEvidence_ok hn hd hex objective
  refine ⟨runs, hids, hmem, ?_⟩
  unfold rankRuns
  rw [firstDuplicate_eq_none hd (by simp), hev]; rfl

theorem rankRuns_ok (hn : (store.runs.map Run.runId).Nodup) (hd : runIds.Nodup)
    (hex : ∀ r ∈ runIds, ∃ run ∈ store.runs, run.runId = r) (objective : ObjectiveMetric) :
    ∃ runs : List Run, runs.map Run.runId = runIds ∧ (∀ run ∈ runs, run ∈ store.runs) ∧
      rankRuns store runIds objective = .ok ⟨objective,
        rankedOf objective.direction (candidatesOf store objective runs) ++
          unrankedOf objective.direction (candidatesOf store objective runs)⟩ := by
  obtain ⟨runs, hids, hmem, hr⟩ := rankRuns_candidates hn hd hex objective
  refine ⟨runs, hids, hmem, ?_⟩
  rw [hr, rankCandidates_eq (candidatesOf_numbered (hids ▸ hd))]

theorem perm_of_runIds (hn : (store.runs.map Run.runId).Nodup) {runs others : List Run}
    (hmem : ∀ run ∈ runs, run ∈ store.runs) (hmem' : ∀ run ∈ others, run ∈ store.runs)
    (hd : (runs.map Run.runId).Nodup) (hp : (others.map Run.runId).Perm (runs.map Run.runId)) :
      others.Perm runs := by
  have hsame : ∀ {l l' : List Run}, (∀ run ∈ l, run ∈ store.runs) → (∀ run ∈ l', run ∈ store.runs) →
      (∀ r ∈ l.map Run.runId, r ∈ l'.map Run.runId) → ∀ run ∈ l, run ∈ l' := by
    intro l l' hl hl' hsub run hrun
    obtain ⟨other, ho, hid⟩ := List.mem_map.mp (hsub _ (List.mem_map_of_mem hrun))
    rw [← List.inj_on_of_nodup_map hn (hl' other ho) (hl run hrun) hid]
    exact ho
  rw [List.perm_ext_iff_of_nodup (List.Nodup.of_map _ (hp.nodup_iff.mpr hd)) (List.Nodup.of_map _ hd)]
  intro run
  exact ⟨hsame hmem' hmem (fun r h => hp.mem_iff.mp h) run, hsame hmem hmem' (fun r h => hp.mem_iff.mpr h) run⟩

theorem Ranked.head {ranked unranked : List RankingEntry} (h : Ranked store objective runIds ranked unranked)
    {e : RankingEntry} {rest : List RankingEntry} (he : ranked = e :: rest) : e.rank = some 1 := by
  have hbeats : ranked.countP (fun x => x.beats objective.direction e) = 0 := by
    rw [List.countP_eq_zero]
    intro x hx hb
    subst he
    obtain ⟨-, v, hv, hvfin⟩ := h.eligible e (List.mem_cons_self ..)
    obtain ⟨-, w, hw, hwfin⟩ := h.eligible x hx
    simp only [RankingEntry.beats, hv, hw] at hb
    have hlt := (better_iff hwfin hvfin objective.direction).mp hb
    rcases List.mem_cons.mp hx with rfl | hx
    · rw [hv] at hw
      cases hw
      exact lt_irrefl _ hlt
    · obtain ⟨v', w', hv', hw', hprec⟩ := (List.pairwise_cons.mp h.sorted).1 x hx
      rw [hv] at hv'
      rw [hw] at hw'
      cases hv'
      cases hw'
      rcases hprec with hbetter | ⟨hval, -⟩
      · have := (better_iff hvfin hwfin objective.direction).mp hbetter
        omega
      · have := (cost_eq_iff hvfin hwfin objective.direction).mpr hval
        omega
  have := h.ranks e (by rw [he]; exact List.mem_cons_self ..)
  rw [hbeats] at this
  exact this

theorem bestEligibleRun_eq {ranked unranked : List RankingEntry} (h : Ranked store objective runIds ranked unranked)
    (hr : rankRuns store runIds objective = .ok ⟨objective, ranked ++ unranked⟩) :
    bestEligibleRun store runIds objective = .ok (ranked.head?.map fun e => e.evidence.runId) := by
  unfold bestEligibleRun
  rw [hr]
  simp only [bind, Except.bind, pure, Except.pure]
  cases hranked : ranked with
  | nil =>
    have hnone : unranked.find? (fun e => e.rank == some 1) = none := by
      rw [List.find?_eq_none]
      intro e he
      simp [h.no_rank e he]
    simp [hnone]
  | cons e rest => simp [h.head hranked]

end

/-- The ranking of distinct existing runs. -/
theorem ranking_meets_spec (store : Store) (hn : (store.runs.map Run.runId).Nodup) (objective : ObjectiveMetric)
    {runIds : List RunId} (hd : runIds.Nodup) (hex : ∀ r ∈ runIds, ∃ run ∈ store.runs, run.runId = r) :
    ∃ ranked unranked, rankRuns store runIds objective = .ok ⟨objective, ranked ++ unranked⟩ ∧
      Ranked store objective runIds ranked unranked ∧
      (∀ others : List RunId, others.Perm runIds → ∃ unranked', unranked'.Perm unranked ∧
        rankRuns store others objective = .ok ⟨objective, ranked ++ unranked'⟩) ∧
      (∀ e ∈ ranked.head?, e.rank = some 1) ∧
      bestEligibleRun store runIds objective = .ok (ranked.head?.map fun e => e.evidence.runId) ∧
      (bestEligibleRun store runIds objective = .ok none ↔ ranked = []) ∧
      (Encoded store.points → ∀ run ∈ store.runs, ∀ ties,
        store.aggregates.filter (fun a => a.runId == run.runId) = rebuiltAggregates ties store.points run.runId →
          store.lastValue objective.metricKey run = (argMax MetricPointRow.step
            (effectiveCte store.points run.runId objective.metricKey none none)).map MetricPointRow.valueF64) := by
  obtain ⟨runs, hids, hmem, hr⟩ := rankRuns_ok hn hd hex objective
  have hranked := ranked_of_runs hn hmem hd hids objective
  refine ⟨_, _, hr, hranked, ?_, ?_, bestEligibleRun_eq hranked hr, ?_,
    fun he run _ ties hagg => lastValue_eq_series ties he hagg objective.metricKey⟩
  · intro others hperm
    have hd' := hperm.nodup_iff.mpr hd
    obtain ⟨runs', hids', hmem', hr'⟩ := rankRuns_ok hn hd' (fun r h => hex r (hperm.mem_iff.mp h)) objective
    have hnum : Numbered (candidatesOf store objective runs) := candidatesOf_numbered (hids ▸ hd)
    have hnum' : Numbered (candidatesOf store objective runs') := candidatesOf_numbered (hids' ▸ hd')
    -- the two requests find the same runs
    have hruns : runs'.Perm runs := by
      rw [← hids, ← hids'] at hperm
      exact perm_of_runIds hn hmem hmem' (hids ▸ hd) hperm
    have hcore : ((candidatesOf store objective runs').map RankingCandidate.core).Perm
        ((candidatesOf store objective runs).map RankingCandidate.core) := by
      rw [candidatesOf_core, candidatesOf_core]
      exact hruns.map _
    refine ⟨_, unrankedOf_perm hcore, ?_⟩
    rw [hr', rankedOf_perm hnum hnum' hcore]
  · intro e he
    cases hl : rankedOf objective.direction (candidatesOf store objective runs) with
    | nil => rw [hl] at he; cases he
    | cons x rest =>
      rw [hl] at he
      cases he
      exact hranked.head hl
  · rw [bestEligibleRun_eq hranked hr]
    simp

/-- Runs with equal values, a worse one, one without a value and one that runs. -/
def rankedStore : Store where
  runs := [⟨"zero", "p", "n", .finished, 5, 5, some 9⟩, ⟨"minus", "p", "n", .finished, 6, 6, some 9⟩,
    ⟨"one", "p", "n", .finished, 4, 4, some 9⟩, ⟨"none", "p", "n", .finished, 3, 3, some 9⟩,
    ⟨"busy", "p", "n", .running, 2, 2, none⟩]
  points := [⟨"busy", "k", "k", 1, 2, ⟨0⟩, 3⟩]
  aggregates :=
    [⟨"zero", "k", 1, 1, ⟨0⟩, ⟨0⟩, ⟨0⟩⟩,
      ⟨"minus", "k", 1, 1, ⟨0x8000000000000000⟩, ⟨0x8000000000000000⟩, ⟨0x8000000000000000⟩⟩,
    ⟨"one", "k", 1, 1, ⟨0x3ff0000000000000⟩, ⟨0x3ff0000000000000⟩, ⟨0x3ff0000000000000⟩⟩]

theorem ranking_meets_spec_store : ∃ ranked unranked,
    rankRuns rankedStore ["one", "busy", "minus", "none", "zero"] ⟨"k", .minimize⟩ =
        .ok ⟨⟨"k", .minimize⟩, ranked ++ unranked⟩ ∧
      Ranked rankedStore ⟨"k", .minimize⟩ ["one", "busy", "minus", "none", "zero"] ranked unranked ∧
      bestEligibleRun rankedStore ["one", "busy", "minus", "none", "zero"] ⟨"k", .minimize⟩ =
        .ok (ranked.head?.map fun e => e.evidence.runId) := by
  obtain ⟨ranked, unranked, hr, hranked, -, -, hbest, -⟩ :=
    ranking_meets_spec rankedStore (by decide) ⟨"k", .minimize⟩
    (show ["one", "busy", "minus", "none", "zero"].Nodup by decide) (by decide)
  exact ⟨ranked, unranked, hr, hranked, hbest⟩

/-! ## Reachable stores -/

/-- What queries with these plans read in a state. -/
def World.store (s : World) (ties : List RunId → MetricKey → Ties) : Store where
  runs := s.runs
  points := s.points
  aggregates := s.aggregates
  ties := ties

section
variable {projects : List Project} {capacity : Nat → Nat} {acts : List WorldAct} {s : World}
variable (h : exec World.step (World.init projects [] capacity) acts = some s)
  (hm : Meets World.step Sequential (World.init projects [] capacity) acts)
include h hm

theorem reachable_rebuilt {run : Run} (hrun : run ∈ s.runs) (hst : run.status ≠ .running) :
    s.Rebuilt run.runId := by
  obtain ⟨hinv, hruns⟩ := invariants_of_run h hm
  have hstatus : statusIn s.runs run.runId = some run.status := by
    unfold statusIn
    rw [(find_key_iff hinv.stored).mpr ⟨hrun, rfl⟩]; rfl
  exact (hruns.done _ _ hstatus hst).rebuilt

/-- The last value of a run is the one at the greatest step of its series, running or not. -/
theorem reachable_lastValue (ties : List RunId → MetricKey → Ties) {run : Run} (hrun : run ∈ s.runs)
    (k : MetricKey) :
    (s.store ties).lastValue k run =
      (argMax MetricPointRow.step (effectiveCte s.points run.runId k none none)).map MetricPointRow.valueF64 := by
  obtain ⟨hinv, -⟩ := invariants_of_run h hm
  by_cases hst : run.status = .running
  · exact lastValue_of_running hinv.encoded hst k
  · obtain ⟨rebuilding, hagg⟩ := reachable_rebuilt h hm hrun hst
    exact lastValue_eq_series rebuilding hinv.encoded hagg k

end

end Pulseon
