import Pulseon.Ranking

/-!
# Comparison

`compare_runs` and `comparison_reports`: the difference of the last values of a
candidate and a reference, its sign as the objective reads it, and the advice
drawn from it where the evidence of both is complete. Differences and quotients
of doubles are exact here.
-/

namespace Pulseon

def ObjectiveDirection.normalize : ObjectiveDirection → ℚ → ℚ
  | .minimize, rawDelta => -rawDelta
  | .maximize, rawDelta => rawDelta

inductive ComparisonOutcome
  | improved | regressed | equal
deriving DecidableEq, Repr

def ComparisonOutcome.fromNormalizedImprovement (improvement : ℚ) : ComparisonOutcome :=
  if improvement > 0 then .improved
  else if improvement < 0 then .regressed
  else .equal

inductive ComparisonPreference
  | candidate | reference | noPreference | inconclusive
deriving DecidableEq, Repr

structure ComparisonResult where
  objective : ObjectiveMetric
  candidate : ObjectiveEvidence
  reference : ObjectiveEvidence
  completeness : EvidenceCompleteness
  rawDelta : Option ℚ
  relativeDelta : Option ℚ
  normalizedImprovement : Option ℚ
  outcome : Option ComparisonOutcome
  preference : ComparisonPreference
deriving DecidableEq, Repr

structure MetricComparisonResult where
  metricKey : MetricKey
  candidate : ObjectiveEvidence
  reference : ObjectiveEvidence
  completeness : EvidenceCompleteness
  rawDelta : Option ℚ
  relativeDelta : Option ℚ
deriving DecidableEq, Repr

structure ComparisonReport where
  primary : ComparisonResult
  secondary : List MetricComparisonResult
deriving DecidableEq, Repr

/-! ## Two pieces of evidence -/

def usableValues (candidate reference : ObjectiveEvidence) : Option (ℚ × ℚ) :=
  candidate.usableValue.bind fun c => reference.usableValue.map fun r => (c.value, r.value)

def compareMetricEvidence (metricKey : MetricKey) (candidate reference : ObjectiveEvidence) :
    MetricComparisonResult :=
  let deltas := (usableValues candidate reference).map fun values =>
    let raw := values.1 - values.2
    (raw, if values.2 ≠ 0 then some (raw / |values.2|) else none)
  { metricKey, candidate, reference
    completeness := max candidate.completeness reference.completeness
    rawDelta := deltas.map fun d => d.1
    relativeDelta := deltas.bind fun d => d.2 }

/-- The preference that the completeness and the outcome leave. -/
def preferenceOf : EvidenceCompleteness → Option ComparisonOutcome → ComparisonPreference
  | .complete, some .improved => .candidate
  | .complete, some .regressed => .reference
  | .complete, some .equal => .noPreference
  | _, _ => .inconclusive

def compareEvidence (objective : ObjectiveMetric) (candidate reference : ObjectiveEvidence) : ComparisonResult :=
  let completeness := max candidate.completeness reference.completeness
  let numeric := (usableValues candidate reference).map fun values =>
    let rawDelta := values.1 - values.2
    let relativeDelta := if values.2 ≠ 0 then some (rawDelta / |values.2|) else none
    let normalized := objective.direction.normalize rawDelta
    (rawDelta, relativeDelta, normalized, ComparisonOutcome.fromNormalizedImprovement normalized)
  let outcome := numeric.map fun n => n.2.2.2
  { objective, candidate, reference, completeness
    rawDelta := numeric.map fun n => n.1
    relativeDelta := numeric.bind fun n => n.2.1
    normalizedImprovement := numeric.map fun n => n.2.2.1
    outcome
    preference := preferenceOf completeness outcome }

/-! ## Stored runs -/

/-- `objective_evidence` of the client. -/
def clientObjectiveEvidence (store : Store) (runId : RunId) (objective : ObjectiveMetric) :
    Except EngineError ObjectiveEvidence := do
  let run ← (store.getRun runId).mapError .ofStorage
  return store.objectiveEvidence runId run.status objective

def compareRuns (store : Store) (candidateRunId referenceRunId : RunId) (objective : ObjectiveMetric) :
    Except EngineError ComparisonResult :=
  if candidateRunId = referenceRunId then .error (.duplicateRunIdentity candidateRunId)
  else do
    let candidate ← clientObjectiveEvidence store candidateRunId objective
    let reference ← clientObjectiveEvidence store referenceRunId objective
    return compareEvidence objective candidate reference

structure SecondaryEvidenceSet where
  metricKey : MetricKey
  reference : ObjectiveEvidence
  candidates : List ObjectiveEvidence

/-- `none` where the source would index past the candidates of a set. -/
def buildReports (objective : ObjectiveMetric) (reference : ObjectiveEvidence) (candidates : List ObjectiveEvidence)
    (secondary : List SecondaryEvidenceSet) : Option (List ComparisonReport) :=
  candidates.zipIdx.mapM fun candidate => do
    let results ← secondary.mapM fun set => do
      return compareMetricEvidence set.metricKey (← set.candidates[candidate.2]?) set.reference
    return ⟨compareEvidence objective candidate.1 reference, results⟩

/-- The evidence of one secondary metric, `none` when the request has no runs. -/
def secondaryEvidence (store : Store) (runIds : List RunId) (direction : ObjectiveDirection)
    (metricKey : MetricKey) :
    Except EngineError (Option SecondaryEvidenceSet) := do
  match ← store.rankingEvidence runIds ⟨metricKey, direction⟩ with
  | [] => return none
  | reference :: candidates => return some ⟨metricKey, reference.2, candidates.map Prod.snd⟩

def comparisonReports (store : Store) (candidateRunIds : List RunId) (referenceRunId : RunId)
    (objective : ObjectiveMetric) (secondaryMetricKeys : List MetricKey) :
    Except EngineError (Option (List ComparisonReport)) :=
  let requestRunIds := referenceRunId :: candidateRunIds
  match firstDuplicate [] requestRunIds with
  | some runId => .error (.duplicateRunIdentity runId)
  | none => do
    match ← store.rankingEvidence requestRunIds objective with
    | [] => return some []
    | reference :: candidates =>
      let secondary ← secondaryMetricKeys.mapM (secondaryEvidence store requestRunIds objective.direction)
      return buildReports objective reference.2 (candidates.map Prod.snd) (secondary.filterMap id)

end Pulseon
