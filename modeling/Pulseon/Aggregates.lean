import Pulseon.Points
import Mathlib.Data.List.Dedup

/-!
# Metric aggregates

The rows of `pulseon_metric_aggregates`, the query that rebuilds them for a
run, and the reads that use them for terminal runs and aggregate the effective
series themselves for running ones.
-/

namespace Pulseon

structure MetricAggregate where
  runId : RunId
  metricKey : MetricKey
  effectiveCount : Nat
  lastStep : Int
  lastValueF64 : F64
  minValueF64 : F64
  maxValueF64 : F64
deriving DecidableEq, Repr

/-- The row that `arg_max(.., stamp)` takes its value from. -/
def argMax (stamp : MetricPointRow → Int) (rows : List MetricPointRow) : Option MetricPointRow :=
  newest stamp (fun _ => true) rows

/-- `arg_max(step, step)`, in the statement that rebuilds the aggregates. -/
def argMaxStep (rows : List MetricPointRow) : Option Int :=
  (argMax MetricPointRow.step rows).map MetricPointRow.step

/-- `max(step)`, in the queries on running runs. -/
def maxStep (rows : List MetricPointRow) : Option Int := (rows.map MetricPointRow.step).max?

/-- The row that `min` or `max` takes its value from, of those with the greatest stamp. -/
def extreme (stamp : MetricPointRow → Int) (choice : Nat) (rows : List MetricPointRow) : Option MetricPointRow :=
  let best := rows.filter fun x => rows.all fun y => decide (stamp y ≤ stamp x)
  best[choice % best.length]?

/-- What the plan of one statement chooses in each group among values that are
equal as numbers, such as `0.0` and `-0.0`. -/
structure Ties where
  least : RunId → MetricKey → Nat := fun _ _ => 0
  greatest : RunId → MetricKey → Nat := fun _ _ => 0

section
variable (ties : Ties)

/-- `count(*)`, the last step, `arg_max(value_f64, step)`, `min(value_f64)` and
`max(value_f64)` of one group. -/
def aggregateOf (lastStep : List MetricPointRow → Option Int) (runId : RunId) (metricKey : MetricKey)
    (rows : List MetricPointRow) : Option MetricAggregate := do
  let step ← lastStep rows
  let last ← argMax MetricPointRow.step rows
  let least ← extreme (fun row => -row.valueF64.key) (ties.least runId metricKey) rows
  let greatest ← extreme (fun row => row.valueF64.key) (ties.greatest runId metricKey) rows
  return {
    runId := runId
    metricKey := metricKey
    effectiveCount := rows.length
    lastStep := step
    lastValueF64 := last.valueF64
    minValueF64 := least.valueF64
    maxValueF64 := greatest.valueF64 }

/-- `GROUP BY run_id, metric_key`. -/
def groupAggregates (lastStep : List MetricPointRow → Option Int) (rows : List MetricPointRow) :
    List MetricAggregate :=
  (rows.map fun row => (row.runId, row.metricKey)).dedup.filterMap fun g =>
    aggregateOf ties lastStep g.1 g.2 (rows.filter fun row => row.runId == g.1 && row.metricKey == g.2)

/-- What `rebuild_metric_aggregates_for_run` inserts after its `DELETE`. -/
def rebuiltAggregates (points : List MetricPointRow) (runId : RunId) : List MetricAggregate :=
  groupAggregates ties argMaxStep (effectiveWhere points fun row => row.runId == runId)

end

/-! ## Reading -/

def orderByMetricKey (aggregates : List MetricAggregate) : List MetricAggregate :=
  aggregates.mergeSort fun a b => decide (a.metricKey ≤ b.metricKey)

section
variable (ties : Ties)

def listMetrics (points : List MetricPointRow) (aggregates : List MetricAggregate) (runId : RunId) :
    RunStatus → List MetricAggregate
  | .running =>
    orderByMetricKey (groupAggregates ties maxStep (effectiveWhere points fun row => row.runId == runId))
  | .finished | .failed => orderByMetricKey (aggregates.filter fun a => a.runId == runId)

/-- The rows of one requested run: the stored ones for each of its rows that is
not running, and one group over the effective points for those that are. -/
def summariesOf (runs : List Run) (points : List MetricPointRow) (aggregates : List MetricAggregate)
    (metricKey : MetricKey) (runId : RunId) : List MetricAggregate :=
  ((runs.filter fun run => run.runId == runId && run.status != .running).flatMap fun _ =>
      aggregates.filter fun a => a.runId == runId && a.metricKey == metricKey) ++
    (aggregateOf ties maxStep runId metricKey
      ((runs.filter fun run => run.runId == runId && run.status == .running).flatMap fun _ =>
        (effectiveWhere points fun row => row.metricKey == metricKey).filter
          fun row => row.runId == runId)).toList

def queryMetricSummaries (runs : List Run) (points : List MetricPointRow)
    (aggregates : List MetricAggregate) (runIds : List RunId) (metricKey : MetricKey) :
    List MetricAggregate :=
  runIds.flatMap (summariesOf ties runs points aggregates metricKey)

end

end Pulseon
