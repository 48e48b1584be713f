import Mathlib.Data.String.Basic
import Mathlib.Data.Sum.Order
import Pulseon.Evidence
import Pulseon.Selection

/-!
# Ranking

`rank_runs` and what it calls: the runs and their objective evidence in request
order, the comparator, the stable sort and the scan that assigns competition
ranks. The store is what the statements read.
-/

namespace Pulseon

/-- What the queries of a client read. `ties` are the choices of the summaries
statements, by their requests. -/
structure Store where
  runs : List Run
  points : List MetricPointRow
  aggregates : List MetricAggregate
  ties : List RunId → MetricKey → Ties := fun _ _ => {}

namespace Store
variable (store : Store)

/-! ## Evidence -/

def getRun (runId : RunId) : Except StorageError Run :=
  match store.runs.find? fun run => run.runId == runId with
  | some run => .ok run
  | none => .error (.runNotFound runId)

/-- The requested runs in request order, each with the stored rows of its id. -/
def getRuns : List RunId → Except StorageError (List Run)
  | [] => .ok []
  | runId :: rest => do
    let runs ← match store.runs.filter fun run => run.runId == runId with
      | [] => .error (.runNotFound runId)
      | runs => .ok runs
    return runs ++ (← getRuns rest)

def queryMetricSummaries (runIds : List RunId) (metricKey : MetricKey) : List MetricAggregate :=
  Pulseon.queryMetricSummaries (store.ties runIds metricKey) store.runs store.points store.aggregates
    runIds metricKey

/-- `objective_evidence` of the query store. -/
def objectiveEvidence (runId : RunId) (runStatus : RunStatus) (objective : ObjectiveMetric) : ObjectiveEvidence :=
  Pulseon.objectiveEvidence runId runStatus (store.queryMetricSummaries [runId] objective.metricKey).head?

/-- The evidence of each run with the aggregate that the map has for it: the
last one collected, which is removed. -/
def takeEvidence : List Run → List MetricAggregate → List ObjectiveEvidence
  | [], _ => []
  | run :: rest, aggregates =>
    Pulseon.objectiveEvidence run.runId run.status (aggregates.filter fun a => a.runId == run.runId).getLast? ::
      takeEvidence rest (aggregates.filter fun a => a.runId != run.runId)

def objectiveEvidenceForRuns (runs : List Run) (objective : ObjectiveMetric) : List ObjectiveEvidence :=
  takeEvidence runs (store.queryMetricSummaries (runs.map Run.runId) objective.metricKey)

def rankingEvidence (runIds : List RunId) (objective : ObjectiveMetric) :
    Except EngineError (List (Run × ObjectiveEvidence)) := do
  let runs ← (store.getRuns runIds).mapError .ofStorage
  return runs.zip (store.objectiveEvidenceForRuns runs objective)

end Store

/-! ## Ranking -/

structure RankingCandidate where
  evidence : ObjectiveEvidence
  createdAt : Int
  ordinal : Nat
deriving DecidableEq, Repr

structure RankingEntry where
  evidence : ObjectiveEvidence
  rank : Option Nat
deriving DecidableEq, Repr

structure RankingResult where
  objective : ObjectiveMetric
  entries : List RankingEntry
deriving DecidableEq, Repr

def eligibleValue (evidence : ObjectiveEvidence) : Option F64 :=
  if evidence.completeness = .complete then evidence.usableValue else none

def objectiveOrder (direction : ObjectiveDirection) (leftValue rightValue : F64) : Ordering :=
  if leftValue.eq rightValue then .eq
  else match direction with
    | .minimize => leftValue.totalCmp rightValue
    | .maximize => rightValue.totalCmp leftValue

def compareCandidates (direction : ObjectiveDirection) (left right : RankingCandidate) : Ordering :=
  match eligibleValue left.evidence, eligibleValue right.evidence with
  | some leftValue, some rightValue =>
    ((objectiveOrder direction leftValue rightValue).then (compare left.createdAt right.createdAt)).then
      (compare left.evidence.runId right.evidence.runId)
  | some _, none => .lt
  | none, some _ => .gt
  | none, none => compare left.ordinal right.ordinal

/-- `previous_value != Some(value)` -/
def differs (previousValue : Option F64) (value : F64) : Bool :=
  match previousValue with
  | none => true
  | some previous => !previous.eq value

/-- The scan over the sorted candidates from an index on. -/
def assignRanks (index : Nat) (previousValue : Option F64) (previousRank : Nat) :
    List RankingCandidate → List RankingEntry
  | [] => []
  | candidate :: rest =>
    match eligibleValue candidate.evidence with
    | none => ⟨candidate.evidence, none⟩ :: assignRanks (index + 1) previousValue previousRank rest
    | some value =>
      if differs previousValue value then
        ⟨candidate.evidence, some (index + 1)⟩ :: assignRanks (index + 1) (some value) (index + 1) rest
      else ⟨candidate.evidence, some previousRank⟩ :: assignRanks (index + 1) previousValue previousRank rest

def rankCandidates (objective : ObjectiveMetric) (candidates : List RankingCandidate) : RankingResult :=
  let sorted := candidates.mergeSort fun left right => compareCandidates objective.direction left right != .gt
  ⟨objective, assignRanks 0 none 0 sorted⟩

def firstDuplicate (seen : List RunId) : List RunId → Option RunId
  | [] => none
  | runId :: rest => if seen.contains runId then some runId else firstDuplicate (runId :: seen) rest

def numberCandidates (evidence : List (Run × ObjectiveEvidence)) : List RankingCandidate :=
  evidence.zipIdx.map fun r => ⟨r.1.2, r.1.1.createdAt, r.2⟩

def rankRuns (store : Store) (runIds : List RunId) (objective : ObjectiveMetric) :
    Except EngineError RankingResult :=
  match firstDuplicate [] runIds with
  | some runId => .error (.duplicateRunIdentity runId)
  | none => do
    let evidence ← store.rankingEvidence runIds objective
    return rankCandidates objective (numberCandidates evidence)

def bestEligibleRun (store : Store) (runIds : List RunId) (objective : ObjectiveMetric) :
    Except EngineError (Option RunId) := do
  let result ← rankRuns store runIds objective
  return (result.entries.find? fun entry => entry.rank == some 1).map fun entry => entry.evidence.runId

end Pulseon
