import Pulseon.ReadWorker

/-!
# The read session

What a store lists, and the catalog that a viewer's read session discovers in it:
the projects, the runs of the chosen one and the metrics of the selected runs.
The texts of errors are parameters.
-/

namespace Pulseon

def Run.listed (run : Run) : Int ×ₗ String := toLex (run.createdAt, run.runId)

def Project.listed (project : Project) : Int ×ₗ String := toLex (project.createdAt, project.projectId)

/-- The rows from an offset on, at most `limit` of them. -/
def pageOf {α : Type} (limit : Option Nat) (offset : Nat) (rows : List α) : List α :=
  let rest := rows.drop offset
  limit.elim rest rest.take

namespace Store
variable (store : Store)

/-- The rows of `list_runs` before its `LIMIT` and `OFFSET`. -/
def projectRuns (projectId : ProjectId) (status : Option RunStatus) : List Run :=
  orderBy Run.listed (store.runs.filter fun run =>
    run.projectId == projectId && status.all fun status => run.status == status)

def listRuns (projectId : ProjectId) (status : Option RunStatus) (limit : Option Nat) (offset : Nat) :
    Except StorageError (List Run) :=
  ((pageOf limit offset (store.projectRuns projectId status)).map Run.runId).mapM store.getRun

end Store

structure Source extends Store where
  projects : List Project
  metricTies : RunId → Ties := fun _ => {}

namespace Source
variable (source : Source)

def listProjects : List Project := orderBy Project.listed source.projects

def listMetrics (run : Run) : List MetricAggregate :=
  Pulseon.listMetrics (source.metricTies run.runId) source.points source.aggregates run.runId run.status

/-- The metrics of the selected runs that are among the listed ones. -/
def selectedMetrics (runs : List Run) (selectedRunIds : List RunId) : List MetricKey :=
  selectedRunIds.flatMap fun runId =>
    (runs.find? fun run => run.runId == runId).elim [] fun run =>
      (source.listMetrics run).map MetricAggregate.metricKey

/-- The values of a map by the metric keys, in order. -/
def sortedKeys (keys : List MetricKey) : List MetricKey := keys.dedup.mergeSort fun a b => decide (a ≤ b)

def discover (request : DiscoveryRequest) : Except StorageError CatalogSnapshot :=
  let projects := source.listProjects
  match request.projectId.filter fun projectId => projects.any fun project => project.projectId == projectId with
  | none => .ok ⟨projects, [], []⟩
  | some projectId => do
    let runs := (← source.listRuns projectId none none 0).reverse
    return ⟨projects, runs, sortedKeys (source.selectedMetrics runs request.selectedRunIds)⟩

section
variable (sourceText : StorageError → String) (queryText : QueryError → String) (accepts : Int → Bool)

/-- The session's reads of a store. -/
def session : ReadSession where
  discover request := (source.discover request).mapError sourceText
  queryOverview request := (Pulseon.queryOverview accepts source.toStore request).mapError queryText
  queryDetail request := (Pulseon.queryDetail accepts source.toStore request).mapError queryText

end

end Source

end Pulseon
