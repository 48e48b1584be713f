import Pulseon.Comparison
import Pulseon.RankRunsSound

/-!
# What a comparison returns

Exchanging candidate and reference reverses a comparison. The sign of the
normalized difference is the order of the costs that the ranking sorts by, and a
comparison is conclusive exactly when both sides are eligible, so the preference
is the order of the two ranks.
-/

namespace Pulseon

/-! ## Exchange -/

def ComparisonOutcome.reverse : ComparisonOutcome → ComparisonOutcome
  | .improved => .regressed
  | .regressed => .improved
  | .equal => .equal

def ComparisonPreference.reverse : ComparisonPreference → ComparisonPreference
  | .candidate => .reference
  | .reference => .candidate
  | .noPreference => .noPreference
  | .inconclusive => .inconclusive

/-- A comparison and the one with candidate and reference exchanged. -/
structure Reversed (c s : ComparisonResult) : Prop where
  sides : s.candidate = c.reference ∧ s.reference = c.candidate
  completeness : s.completeness = c.completeness
  rawDelta : s.rawDelta = c.rawDelta.map Neg.neg
  normalizedImprovement : s.normalizedImprovement = c.normalizedImprovement.map Neg.neg
  outcome : s.outcome = c.outcome.map ComparisonOutcome.reverse
  preference : s.preference = c.preference.reverse

theorem normalize_neg (direction : ObjectiveDirection) (x : ℚ) :
    direction.normalize (-x) = -direction.normalize x := by
  cases direction <;> simp [ObjectiveDirection.normalize]

theorem outcome_neg (x : ℚ) : ComparisonOutcome.fromNormalizedImprovement (-x) =
    (ComparisonOutcome.fromNormalizedImprovement x).reverse := by
  unfold ComparisonOutcome.fromNormalizedImprovement
  rcases lt_trichotomy x 0 with h | h | h
  · simp [h, not_lt_of_gt h, ComparisonOutcome.reverse]
  · simp [h, ComparisonOutcome.reverse]
  · simp [h, not_lt_of_gt h, ComparisonOutcome.reverse]

theorem preferenceOf_reverse (completeness : EvidenceCompleteness) (outcome : Option ComparisonOutcome) :
    preferenceOf completeness (outcome.map ComparisonOutcome.reverse) =
      (preferenceOf completeness outcome).reverse := by
  cases completeness <;> rcases outcome with _ | outcome <;> try rfl
  cases outcome <;> rfl

theorem usableValues_swap (candidate reference : ObjectiveEvidence) :
    usableValues reference candidate = (usableValues candidate reference).map Prod.swap := by
  unfold usableValues
  cases candidate.usableValue <;> cases reference.usableValue <;> rfl

section
variable (objective : ObjectiveMetric) (candidate reference : ObjectiveEvidence)

theorem compareEvidence_reversed :
    Reversed (compareEvidence objective candidate reference) (compareEvidence objective reference candidate) := by
  have hnormal : ∀ x y : ℚ, objective.direction.normalize (y - x) = -objective.direction.normalize (x - y) := by
    intro x y
    rw [← normalize_neg, neg_sub]
  have houtcome : (compareEvidence objective reference candidate).outcome =
      (compareEvidence objective candidate reference).outcome.map ComparisonOutcome.reverse := by
    simp only [compareEvidence]
    rw [usableValues_swap candidate reference]
    cases usableValues candidate reference with
    | none => rfl
    | some values => simp [hnormal values.1 values.2, outcome_neg]
  have hcomplete : (compareEvidence objective reference candidate).completeness =
      (compareEvidence objective candidate reference).completeness := max_comm ..
  constructor
  · exact ⟨rfl, rfl⟩
  · exact hcomplete
  · simp only [compareEvidence]
    rw [usableValues_swap candidate reference]
    cases usableValues candidate reference <;> simp
  · simp only [compareEvidence]
    rw [usableValues_swap candidate reference]
    cases usableValues candidate reference with
    | none => rfl
    | some values => simp [hnormal values.1 values.2]
  · exact houtcome
  · show preferenceOf (compareEvidence objective reference candidate).completeness
      (compareEvidence objective reference candidate).outcome = _
    rw [houtcome, hcomplete, preferenceOf_reverse]; rfl

theorem compareMetricEvidence_reversed (metricKey : MetricKey) :
    (compareMetricEvidence metricKey reference candidate).completeness =
        (compareMetricEvidence metricKey candidate reference).completeness ∧
      (compareMetricEvidence metricKey reference candidate).rawDelta =
        (compareMetricEvidence metricKey candidate reference).rawDelta.map Neg.neg := by
  refine ⟨max_comm .., ?_⟩
  simp only [compareMetricEvidence]
  rw [usableValues_swap candidate reference]
  cases usableValues candidate reference <;> simp

end

/-! ## Preference -/

theorem max_eq_complete (x y : EvidenceCompleteness) : max x y = .complete ↔ x = .complete ∧ y = .complete := by
  cases x <;> cases y <;> decide

theorem preferenceOf_incomplete {completeness : EvidenceCompleteness} (h : completeness ≠ .complete)
    (outcome : Option ComparisonOutcome) : preferenceOf completeness outcome = .inconclusive := by
  cases completeness with
  | complete => exact absurd rfl h
  | qualified | unavailable | invalid => rfl

section
variable {objective : ObjectiveMetric} {candidate reference : ObjectiveEvidence}

theorem preference_inconclusive (h : eligibleValue candidate = none ∨ eligibleValue reference = none) :
    (compareEvidence objective candidate reference).preference = .inconclusive := by
  simp only [compareEvidence]
  by_cases hc : max candidate.completeness reference.completeness = .complete
  · obtain ⟨hcand, href⟩ := (max_eq_complete _ _).mp hc
    have hnone : usableValues candidate reference = none := by
      unfold eligibleValue at h
      rw [if_pos hcand, if_pos href] at h
      unfold usableValues
      rcases h with h | h
      · rw [h]; rfl
      · rw [h]; cases candidate.usableValue <;> rfl
    rw [hc, hnone]; rfl
  · exact preferenceOf_incomplete hc _

theorem eligibleValue_parts {e : ObjectiveEvidence} {v : F64} (h : eligibleValue e = some v) :
    e.completeness = .complete ∧ e.usableValue = some v := by
  unfold eligibleValue at h
  split at h
  · exact ⟨by assumption, h⟩
  · cases h

theorem normalize_pos (direction : ObjectiveDirection) (v w : F64) :
    direction.normalize (v.value - w.value) > 0 ↔ direction.better v w = true := by
  cases direction with
  | minimize => simp [ObjectiveDirection.normalize, ObjectiveDirection.better]
  | maximize => simp [ObjectiveDirection.normalize, ObjectiveDirection.better]

theorem normalize_lt_zero (direction : ObjectiveDirection) (v w : F64) :
    direction.normalize (v.value - w.value) < 0 ↔ direction.better w v = true := by
  rw [← normalize_pos, ← neg_sub v.value w.value, normalize_neg, gt_iff_lt, neg_pos]

theorem preference_eligible {v w : F64} (hv : eligibleValue candidate = some v)
    (hw : eligibleValue reference = some w) :
    (compareEvidence objective candidate reference).preference =
      if objective.direction.better v w then .candidate
      else if objective.direction.better w v then .reference
      else .noPreference := by
  obtain ⟨hcand, hvu⟩ := eligibleValue_parts hv
  obtain ⟨href, hwu⟩ := eligibleValue_parts hw
  have hvalues : usableValues candidate reference = some (v.value, w.value) := by
    unfold usableValues
    rw [hvu, hwu]; rfl
  simp only [compareEvidence, (max_eq_complete _ _).mpr ⟨hcand, href⟩, hvalues, Option.map_some,
    ComparisonOutcome.fromNormalizedImprovement, normalize_pos, normalize_lt_zero]
  by_cases h : objective.direction.better v w = true
  · simp [h, preferenceOf]
  · by_cases h' : objective.direction.better w v = true <;> simp [h, h', preferenceOf]

end

/-! ## Ranks -/

def RankingResult.rankOf (result : RankingResult) (runId : RunId) : Option Nat :=
  (result.entries.find? fun entry => entry.evidence.runId == runId).bind RankingEntry.rank

theorem better_irrefl (direction : ObjectiveDirection) (v : F64) : direction.better v v = false := by
  cases direction <;> simp [ObjectiveDirection.better]

theorem better_asymm {direction : ObjectiveDirection} {v w : F64} (h : direction.better v w = true) :
    direction.better w v = false := by
  cases direction <;> simp only [ObjectiveDirection.better, decide_eq_true_eq, decide_eq_false_iff_not] at h ⊢
  · exact not_lt_of_gt h
  · exact not_lt_of_gt h

section
variable {objective : ObjectiveMetric} {candidates : List RankingCandidate}

theorem rankOf_eq (hn : (candidates.map fun c => c.evidence.runId).Nodup) {c : RankingCandidate}
    (hc : c ∈ candidates) :
    (rankCandidates objective candidates).rankOf c.evidence.runId =
      (eligibleValue c.evidence).map fun v => 1 + cheaper objective.direction candidates v := by
  have hperm := orderBy_perm (rankKey objective.direction) candidates
  have hfind : (orderBy (rankKey objective.direction) candidates).find?
      (fun x => x.evidence.runId == c.evidence.runId) = some c :=
    (find_key_iff ((hperm.map _).nodup_iff.mpr hn)).mpr ⟨hperm.mem_iff.mpr hc, rfl⟩
  unfold RankingResult.rankOf
  rw [rankCandidates_entries, List.find?_map]
  have hcomp : ((fun entry : RankingEntry => entry.evidence.runId == c.evidence.runId) ∘
      rankedEntry objective.direction candidates) = fun x => x.evidence.runId == c.evidence.runId := rfl
  rw [hcomp, hfind]; rfl

end

/-! ## Agreement -/

/-- A preference and the ranks of the candidate and the reference say the same. -/
structure Agrees (preference : ComparisonPreference) (candidateRank referenceRank : Option Nat) : Prop where
  candidate : preference = .candidate ↔ ∃ i j, candidateRank = some i ∧ referenceRank = some j ∧ i < j
  reference : preference = .reference ↔ ∃ i j, candidateRank = some i ∧ referenceRank = some j ∧ j < i
  noPreference : preference = .noPreference ↔ ∃ i, candidateRank = some i ∧ referenceRank = some i
  inconclusive : preference = .inconclusive ↔ candidateRank = none ∨ referenceRank = none

section
variable {objective : ObjectiveMetric} {candidate reference : ObjectiveEvidence}
    {candidates : List RankingCandidate}
variable (hp : (candidates.map RankingCandidate.evidence).Perm [candidate, reference])
include hp

theorem cheaper_two (direction : ObjectiveDirection) {v w : F64} (hv : eligibleValue candidate = some v)
    (hw : eligibleValue reference = some w) (value : F64) : cheaper direction candidates value =
      (if direction.better v value then 1 else 0) + if direction.better w value then 1 else 0 := by
  have hcount : cheaper direction candidates value = (candidates.map RankingCandidate.evidence).countP fun e =>
      (eligibleValue e).any fun u => direction.better u value := by
    rw [List.countP_map]; rfl
  rw [hcount, hp.countP_eq, List.countP_cons, List.countP_cons, List.countP_nil, hv, hw]
  simp only [Option.any_some, Nat.zero_add]
  exact Nat.add_comm ..

theorem preference_agrees (hid : candidate.runId ≠ reference.runId) :
    Agrees (compareEvidence objective candidate reference).preference
      ((rankCandidates objective candidates).rankOf candidate.runId)
      ((rankCandidates objective candidates).rankOf reference.runId) := by
  have hn : (candidates.map fun c => c.evidence.runId).Nodup := by
    have hids := hp.map ObjectiveEvidence.runId
    rw [List.map_map] at hids
    refine hids.nodup_iff.mpr ?_
    simpa using hid
  have hrank : ∀ e ∈ [candidate, reference], (rankCandidates objective candidates).rankOf e.runId =
      (eligibleValue e).map fun v => 1 + cheaper objective.direction candidates v := by
    intro e he
    obtain ⟨c, hc, rfl⟩ := List.mem_map.mp (hp.mem_iff.mpr he)
    exact rankOf_eq hn hc
  rw [hrank candidate (by simp), hrank reference (by simp)]
  cases hv : eligibleValue candidate with
  | none =>
    rw [preference_inconclusive (Or.inl hv)]
    constructor <;> simp
  | some v =>
    cases hw : eligibleValue reference with
    | none =>
      rw [preference_inconclusive (Or.inr hw)]
      constructor <;> simp
    | some w =>
      rw [preference_eligible hv hw, Option.map_some, Option.map_some, cheaper_two hp objective.direction hv hw,
        cheaper_two hp objective.direction hv hw, better_irrefl, better_irrefl]
      by_cases h : objective.direction.better v w = true
      · rw [better_asymm h, h]
        constructor <;> simp
      · simp only [Bool.not_eq_true] at h
        rw [h]
        by_cases h' : objective.direction.better w v = true
        · rw [h']
          constructor <;> simp
        · simp only [Bool.not_eq_true] at h'
          rw [h']
          constructor <;> simp

end

/-- Exchanging the sides reverses a comparison, and its preference is the order
of the two ranks. -/
theorem comparison_agrees_with_ranking (objective : ObjectiveMetric) (candidate reference : ObjectiveEvidence) :
    Reversed (compareEvidence objective candidate reference) (compareEvidence objective reference candidate) ∧
      (∀ metricKey,
        (compareMetricEvidence metricKey reference candidate).completeness =
            (compareMetricEvidence metricKey candidate reference).completeness ∧
          (compareMetricEvidence metricKey reference candidate).rawDelta =
            (compareMetricEvidence metricKey candidate reference).rawDelta.map Neg.neg) ∧
      ∀ candidates : List RankingCandidate, candidate.runId ≠ reference.runId →
        (candidates.map RankingCandidate.evidence).Perm [candidate, reference] →
        Agrees (compareEvidence objective candidate reference).preference
          ((rankCandidates objective candidates).rankOf candidate.runId)
          ((rankCandidates objective candidates).rankOf reference.runId) :=
  ⟨compareEvidence_reversed objective candidate reference, compareMetricEvidence_reversed candidate reference,
    fun _ hid hp => preference_agrees hp hid⟩

def completeEvidence (runId : RunId) (value : F64) : ObjectiveEvidence :=
  ⟨runId, .finished, some 4, some value, .complete, []⟩

theorem comparison_agrees_with_ranking_two :
    Agrees (compareEvidence ⟨"loss", .minimize⟩ (completeEvidence "candidate" ⟨0x4000000000000000⟩)
        (completeEvidence "reference" ⟨0x4010000000000000⟩)).preference
      ((rankCandidates ⟨"loss", .minimize⟩ [⟨completeEvidence "reference" ⟨0x4010000000000000⟩, 3, 0⟩,
        ⟨completeEvidence "candidate" ⟨0x4000000000000000⟩, 7, 1⟩]).rankOf "candidate")
      ((rankCandidates ⟨"loss", .minimize⟩ [⟨completeEvidence "reference" ⟨0x4010000000000000⟩, 3, 0⟩,
        ⟨completeEvidence "candidate" ⟨0x4000000000000000⟩, 7, 1⟩]).rankOf "reference") :=
  (comparison_agrees_with_ranking ⟨"loss", .minimize⟩ (completeEvidence "candidate" ⟨0x4000000000000000⟩)
    (completeEvidence "reference" ⟨0x4010000000000000⟩)).2.2 _ (by decide) (List.Perm.swap ..)

/-! ## Stored runs -/

theorem mapM_eq_pure {m : Type → Type} [Monad m] [LawfulMonad m] {α β : Type} {f : α → m β} {g : α → β} {l : List α}
    (h : ∀ x ∈ l, f x = pure (g x)) : l.mapM f = pure (l.map g) := by
  induction l with
  | nil => simp
  | cons x l ih =>
    rw [List.mapM_cons, h x (List.mem_cons_self ..), ih fun y hy => h y (List.mem_cons_of_mem _ hy)]
    simp

theorem buildReports_eq (objective : ObjectiveMetric) (reference : ObjectiveEvidence) (runs : List Run)
    (evidence : Run → ObjectiveEvidence) (keys : List MetricKey) (references : MetricKey → ObjectiveEvidence)
    (secondary : MetricKey → Run → ObjectiveEvidence) :
    buildReports objective reference (runs.map evidence)
      (keys.map fun k => ⟨k, references k, runs.map (secondary k)⟩) =
      some (runs.map fun run => ⟨compareEvidence objective (evidence run) reference,
        keys.map fun k => compareMetricEvidence k (secondary k run) (references k)⟩) := by
  unfold buildReports
  rw [List.zipIdx_map, List.mapM_map]
  have hstep : ∀ r ∈ runs.zipIdx, (do
      let results ← (keys.map fun k => SecondaryEvidenceSet.mk k (references k) (runs.map (secondary k))).mapM
        fun set => do
        return compareMetricEvidence set.metricKey (← set.candidates[(Prod.map evidence id r).2]?) set.reference
      return ComparisonReport.mk (compareEvidence objective (Prod.map evidence id r).1 reference) results) =
      some (ComparisonReport.mk (compareEvidence objective (evidence r.1) reference)
        (keys.map fun k => compareMetricEvidence k (secondary k r.1) (references k))) := by
    intro r hr
    have hget : runs[r.2]? = some r.1 := (List.mem_zipIdx_iff_getElem? ..).mp hr
    rw [List.mapM_map, mapM_eq_pure (g := fun k => compareMetricEvidence k (secondary k r.1) (references k))]
    · rfl
    · intro k _
      simp [hget]
  rw [Function.comp_def, mapM_eq_pure hstep]
  have hfst : runs.zipIdx.map Prod.fst = runs := List.zipIdx_map_fst ..
  conv_rhs => rw [← hfst]
  rw [List.map_map]; rfl

section
variable {store : Store} (hn : (store.runs.map Run.runId).Nodup)
include hn

/-- Each candidate in request order is compared with the reference. -/
theorem comparisonReports_ok (objective : ObjectiveMetric) {candidateRunIds : List RunId} {referenceRunId : RunId}
    (hd : (referenceRunId :: candidateRunIds).Nodup)
    (hex : ∀ r ∈ referenceRunId :: candidateRunIds, ∃ run ∈ store.runs, run.runId = r)
    (secondaryMetricKeys : List MetricKey) :
    ∃ reference ∈ store.runs, ∃ candidates : List Run, reference.runId = referenceRunId ∧
      candidates.map Run.runId = candidateRunIds ∧ (∀ run ∈ candidates, run ∈ store.runs) ∧
      comparisonReports store candidateRunIds referenceRunId objective secondaryMetricKeys =
        .ok (some (candidates.map fun run =>
          ⟨compareEvidence objective (store.evidenceOf objective run) (store.evidenceOf objective reference),
            secondaryMetricKeys.map fun k => compareMetricEvidence k (store.evidenceOf ⟨k, objective.direction⟩ run)
              (store.evidenceOf ⟨k, objective.direction⟩ reference)⟩)) := by
  obtain ⟨runs, hruns, hids, hmem⟩ := getRuns_ok hn hex
  have hev := rankingEvidence_eq hd hruns hids
  cases runs with
  | nil => cases hids
  | cons reference candidates =>
    rw [List.map_cons, List.cons.injEq] at hids
    refine ⟨reference, hmem reference (List.mem_cons_self ..), candidates, hids.1, hids.2,
      fun run hrun => hmem run (List.mem_cons_of_mem _ hrun), ?_⟩
    have hsecondary : secondaryMetricKeys.mapM (secondaryEvidence store (referenceRunId :: candidateRunIds)
        objective.direction) = Except.ok (secondaryMetricKeys.map fun k => some (SecondaryEvidenceSet.mk k
          (store.evidenceOf ⟨k, objective.direction⟩ reference)
          (candidates.map (store.evidenceOf ⟨k, objective.direction⟩)))) := by
      apply mapM_eq_pure
      intro k _
      unfold secondaryEvidence
      rw [hev]
      simp [bind, Except.bind, pure, Except.pure, Function.comp_def]
    have hreports := buildReports_eq objective (store.evidenceOf objective reference) candidates
      (store.evidenceOf objective) secondaryMetricKeys
        (fun k => store.evidenceOf ⟨k, objective.direction⟩ reference)
      (fun k => store.evidenceOf ⟨k, objective.direction⟩)
    unfold comparisonReports
    dsimp only
    rw [firstDuplicate_eq_none hd (by simp), hev]
    simp only [bind, Except.bind, pure, Except.pure, List.map_cons, hsecondary]
    rw [← hreports, List.map_map, List.filterMap_map]
    simp [Function.comp_def]

variable {objective : ObjectiveMetric} {run : Run} (hrun : run ∈ store.runs)
include hrun

/-- A run with at most one stored aggregate of the metric has the same evidence
alone as in a request. -/
theorem clientObjectiveEvidence_eq (hone : run.status ≠ .running →
      (store.aggregates.filter fun a => a.runId == run.runId && a.metricKey == objective.metricKey).length ≤ 1) :
    clientObjectiveEvidence store run.runId objective = .ok (store.evidenceOf objective run) := by
  have hlast : ∀ l : List MetricAggregate, l.length ≤ 1 → l.head? = l.getLast? := by
    intro l hl
    match l with
    | [] | [_] => rfl
    | _ :: _ :: _ => simp at hl
  have hlength : (summariesOf (store.ties [run.runId] objective.metricKey) store.runs store.points store.aggregates
      objective.metricKey run.runId).length ≤ 1 := by
    rw [summariesOf_of_mem _ hn hrun]
    split
    · exact Option.length_toList_le
    · exact hone (by assumption)
  have hself : store.queryMetricSummaries [run.runId] objective.metricKey =
      summariesOf (store.ties [run.runId] objective.metricKey) store.runs store.points store.aggregates
        objective.metricKey run.runId := List.flatMap_singleton ..
  unfold clientObjectiveEvidence Store.getRun Store.objectiveEvidence Store.evidenceOf
  rw [(find_key_iff hn).mpr ⟨hrun, rfl⟩, hself, hlast _ hlength]
  rfl

end

section
variable {store : Store} {candidate reference : Run}

variable (hn : (store.runs.map Run.runId).Nodup) (hc : candidate ∈ store.runs) (hr : reference ∈ store.runs)
variable (hid : candidate.runId ≠ reference.runId) (objective : ObjectiveMetric)
include hn hc hr hid

theorem compareRuns_eq (hone : ∀ run ∈ [candidate, reference], run.status ≠ .running →
      (store.aggregates.filter fun a => a.runId == run.runId && a.metricKey == objective.metricKey).length ≤ 1) :
    compareRuns store candidate.runId reference.runId objective =
      .ok (compareEvidence objective (store.evidenceOf objective candidate)
        (store.evidenceOf objective reference)) := by
  unfold compareRuns
  rw [if_neg hid, clientObjectiveEvidence_eq hn hc (hone candidate (by simp)),
    clientObjectiveEvidence_eq hn hr (hone reference (by simp))]
  rfl

/-- A comparison prefers the run that `rank_runs` ranks better. -/
theorem comparison_agrees : ∃ ranking,
    rankRuns store [candidate.runId, reference.runId] objective = .ok ranking ∧
      Agrees (compareEvidence objective (store.evidenceOf objective candidate)
          (store.evidenceOf objective reference)).preference
        (ranking.rankOf candidate.runId) (ranking.rankOf reference.runId) := by
  have hd : ([candidate, reference].map Run.runId).Nodup := by simpa using hid
  have hmem : ∀ run ∈ [candidate, reference], run ∈ store.runs := by simp [hc, hr]
  have hex : ∀ r ∈ [candidate.runId, reference.runId], ∃ run ∈ store.runs, run.runId = r := by
    intro r h
    obtain ⟨run, hrun, e⟩ := List.mem_map.mp (show r ∈ [candidate, reference].map Run.runId from h)
    exact ⟨run, hmem run hrun, e⟩
  obtain ⟨runs, hids, hruns, hrank⟩ := rankRuns_candidates hn hd hex objective
  have hperm : runs.Perm [candidate, reference] := perm_of_runIds hn hmem hruns hd (.of_eq hids)
  have hevidence : ((candidatesOf store objective runs).map RankingCandidate.evidence).Perm
      [store.evidenceOf objective candidate, store.evidenceOf objective reference] := by
    have hcore := congrArg (List.map Prod.fst) (candidatesOf_core store objective runs)
    rw [List.map_map, List.map_map] at hcore
    have hmap : (candidatesOf store objective runs).map RankingCandidate.evidence =
        runs.map (store.evidenceOf objective) := hcore
    rw [hmap]
    exact hperm.map _
  exact ⟨_, hrank, preference_agrees hevidence hid⟩

end

/-- Terminal runs have at most one stored aggregate of a metric. -/
def Store.Aggregated (store : Store) (metricKey : MetricKey) : Prop :=
  ∀ run ∈ store.runs, run.status ≠ .running →
    (store.aggregates.filter fun a => a.runId == run.runId && a.metricKey == metricKey).length ≤ 1

/-! ## One run and many -/

section
variable {store : Store} (hn : (store.runs.map Run.runId).Nodup) {objective : ObjectiveMetric}
include hn

end

/-- The value at the greatest step of a series. -/
def World.lastValue (s : World) (runId : RunId) (metricKey : MetricKey) : Option F64 :=
  (argMax MetricPointRow.step (effectiveCte s.points runId metricKey none none)).map MetricPointRow.valueF64

section
variable {projects : List Project} {capacity : Nat → Nat} {acts : List WorldAct} {s : World}
variable (h : exec World.step (World.init projects [] capacity) acts = some s)
  (hm : Meets World.step Sequential (World.init projects [] capacity) acts)
include h hm

theorem reachable_aggregated (ties : List RunId → MetricKey → Ties) (metricKey : MetricKey) :
    (s.store ties).Aggregated metricKey := by
  obtain ⟨hinv, -⟩ := invariants_of_run h hm
  intro run hrun hst
  obtain ⟨rebuilding, hagg⟩ := reachable_rebuilt h hm hrun hst
  have hstored := stored_of_rebuilt hagg hinv.encoded metricKey
  exact (congrArg List.length hstored).trans_le Option.length_toList_le

/-- After any run of sequential clients, the reports of a request are the
comparisons of its pairs: each on the last values of the two series, and its
preference the order of the two ranks. -/
theorem reports_agree_with_ranking (ties : List RunId → MetricKey → Ties) (objective : ObjectiveMetric)
    {candidateRunIds : List RunId} {referenceRunId : RunId} (hd : (referenceRunId :: candidateRunIds).Nodup)
    (hex : ∀ r ∈ referenceRunId :: candidateRunIds, ∃ run ∈ s.runs, run.runId = r)
    (secondaryMetricKeys : List MetricKey) :
    ∃ reports, comparisonReports (s.store ties) candidateRunIds referenceRunId objective secondaryMetricKeys =
        .ok (some reports) ∧
      List.Forall₂ (fun runId report =>
        compareRuns (s.store ties) runId referenceRunId objective = .ok report.primary ∧
        report.primary.candidate.lastValueF64 = s.lastValue runId objective.metricKey ∧
        report.primary.reference.lastValueF64 = s.lastValue referenceRunId objective.metricKey ∧
        (∃ ranking, rankRuns (s.store ties) [runId, referenceRunId] objective = .ok ranking ∧
          Agrees report.primary.preference (ranking.rankOf runId) (ranking.rankOf referenceRunId)) ∧
        List.Forall₂ (fun k result => ∃ candidate reference,
          clientObjectiveEvidence (s.store ties) runId ⟨k, objective.direction⟩ = .ok candidate ∧
            clientObjectiveEvidence (s.store ties) referenceRunId ⟨k, objective.direction⟩ = .ok reference ∧
            result = compareMetricEvidence k candidate reference) secondaryMetricKeys report.secondary)
        candidateRunIds reports := by
  have hn : ((s.store ties).runs.map Run.runId).Nodup := (invariants_of_run h hm).1.stored
  have hagg := reachable_aggregated h hm ties
  obtain ⟨reference, href, candidates, rfl, rfl, hmem, hreports⟩ :=
    comparisonReports_ok hn objective hd hex secondaryMetricKeys
  refine ⟨_, hreports, ?_⟩
  rw [List.forall₂_map_left_iff, List.forall₂_map_right_iff, List.forall₂_same]
  intro run hrun
  have hid : run.runId ≠ reference.runId := fun e =>
    (List.nodup_cons.mp hd).1 (e ▸ List.mem_map_of_mem hrun)
  have hlast : ∀ x ∈ (s.store ties).runs, ((s.store ties).evidenceOf objective x).lastValueF64 =
      s.lastValue x.runId objective.metricKey := fun x hx =>
    (evidenceOf_lastValue hn hx).trans (reachable_lastValue h hm ties hx objective.metricKey)
  refine ⟨compareRuns_eq hn (hmem run hrun) href hid objective fun x hx => ?_, hlast run (hmem run hrun),
    hlast reference href, comparison_agrees hn (hmem run hrun) href hid objective, ?_⟩
  · refine hagg objective.metricKey x ?_
    rcases List.mem_cons.mp hx with rfl | hx
    · exact hmem x hrun
    · rw [List.mem_singleton.mp hx]; exact href
  · rw [List.forall₂_map_right_iff, List.forall₂_same]
    intro k _
    exact ⟨_, _, clientObjectiveEvidence_eq hn (hmem run hrun) (hagg k run (hmem run hrun)),
      clientObjectiveEvidence_eq hn href (hagg k reference href), rfl⟩

end

/-- Two runs, each logged to and finished. -/
def comparedRuns : List WorldAct := List.flatten
  [loggedRun, [.start 0 (.createRun 0 "p" "n" "q")], List.replicate 6 (.go 0 {}), [.runHandle 0 "q"],
    [.start 0 (.logMetricAtStep ⟨0, "q", 1⟩ "k" 0 ⟨0x4000000000000000⟩)], List.replicate 7 (.go 0 {}),
    [.work 0 .go, .work 0 .go, .work 0 .timeout, .work 0 (.write 9)], List.replicate 4 (.work 0 .go),
    [.start 0 (.finishRun 0 "q")], List.replicate 19 (.go 0 {})]

theorem reports_agree_with_ranking_two : ∃ s reports,
    exec World.step (World.init [⟨"p", "p", 0⟩] [] fun _ => 2) comparedRuns = some s ∧ s.points.length = 3 ∧
      comparisonReports (s.store fun _ _ => {}) ["q"] "r" ⟨"k", .minimize⟩ ["k"] = .ok (some reports) ∧
      List.Forall₂ (fun runId report =>
        compareRuns (s.store fun _ _ => {}) runId "r" ⟨"k", .minimize⟩ = .ok report.primary ∧
          report.primary.candidate.lastValueF64 = s.lastValue runId "k") ["q"] reports := by
  have hrun : ∃ s, exec World.step (World.init [⟨"p", "p", 0⟩] [] fun _ => 2) comparedRuns = some s ∧
      s.points.length = 3 ∧ s.runs.map Run.runId = ["r", "q"] := ⟨_, rfl, rfl, rfl⟩
  obtain ⟨s, h, hp, hruns⟩ := hrun
  have hex : ∀ r ∈ ["r", "q"], ∃ run ∈ s.runs, run.runId = r := by
    rw [← hruns]
    exact fun r hr => List.mem_map.mp hr
  obtain ⟨reports, hreports, hall⟩ :=
    reports_agree_with_ranking h (meets_oneThread (by decide +kernel)) (fun _ _ => {})
    ⟨"k", .minimize⟩ (show ["r", "q"].Nodup by decide) hex ["k"]
  exact ⟨s, reports, h, hp, hreports, hall.imp fun _ _ hx => ⟨hx.1, hx.2.1⟩⟩

end Pulseon
