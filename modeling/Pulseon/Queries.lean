import Mathlib.Data.String.Basic
import Pulseon.Points
import Pulseon.Selection

/-!
# Metric queries

`query_metric` over the project table and over Parquet files. The point ids a
query sees are those of one run and key, so that in its effective rows a step
determines the row. DuckDB's `lttb` extension and the timestamps that `chrono`
represents are parameters. Bucket numbers are computed exactly.
-/

namespace Pulseon

/-! ## Requests and results -/

def maxScreenQueryPoints : Nat := 1000000

def extremaPerBucket : Nat := 4

/-- The point limit of a screen budget. The product of a `u32` and a `u16` does
not saturate a `usize`. -/
def screenPoints (pixelWidth : UInt32) (pointsPerPixel : UInt16) : Nat :=
  max extremaPerBucket (min (pixelWidth.toNat * pointsPerPixel.toNat) maxScreenQueryPoints)

inductive ReductionPolicy
  | full
  | lttb (maxPoints : Nat)
  | screenBudget (pixelWidth : UInt32) (pointsPerPixel : UInt16)
deriving DecidableEq

structure MetricQuery where
  runId : RunId
  metricKey : MetricKey
  startStep : Option Int
  endStep : Option Int
  reduction : ReductionPolicy

structure MetricPoint where
  runId : RunId
  metricKey : MetricKey
  step : Int
  timestamp : Int
  valueF64 : F64
  ingestedAt : Int
deriving DecidableEq, Repr

structure MetricQueryResult where
  points : List MetricPoint
  sourceRowCount : Nat
deriving DecidableEq, Repr

def MetricQueryResult.downsampled (r : MetricQueryResult) : Bool := decide (r.points.length < r.sourceRowCount)

/-- The characters that `trim` removes. -/
def whiteSpace (c : Char) : Bool :=
  let n := c.toNat
  (9 ≤ n && n ≤ 13) || n == 0x20 || n == 0x85 || n == 0xa0 || n == 0x1680 || (0x2000 ≤ n && n ≤ 0x200a) ||
    n == 0x2028 || n == 0x2029 || n == 0x202f || n == 0x205f || n == 0x3000

/-- `trim().is_empty()` -/
def blank (s : String) : Bool := s.toList.all whiteSpace

/-! ## Sources -/

/-- The files `read_parquet` finds, by name, with their rows. -/
structure ParquetFiles where
  files : List (String × List MetricPointRow)
  distinct : (files.map Prod.fst).Nodup

/-- The rows with `filename` and `file_row_number`. -/
def ParquetFiles.relation (p : ParquetFiles) : List (MetricPointRow × (String ×ₗ Nat)) :=
  p.files.flatMap fun file => file.2.zipIdx.map fun r => (r.1, toLex (file.1, r.2))

inductive MetricSource
  | project (points : List MetricPointRow)
  | parquet (files : ParquetFiles)

def MetricSource.points : MetricSource → List MetricPointRow
  | .project points => points
  | .parquet p => p.files.flatMap Prod.snd

/-- `ORDER BY ingested_at DESC, tie_breaker DESC` -/
def latestFirst {ι : Type*} [LinearOrder ι] (y x : MetricPointRow × ι) : Bool :=
  decide (x.1.ingestedAt < y.1.ingestedAt) || (decide (x.1.ingestedAt = y.1.ingestedAt) && decide (x.2 < y.2))

/-- The rows of `relation` meeting `p`, and of these the ones with `write_rank = 1`. -/
def effectiveOf {ι : Type*} [LinearOrder ι] (relation : List (MetricPointRow × ι)) (p : MetricPointRow → Bool) :
    List MetricPointRow :=
  (firstRanked (fun r => r.1.pointId) latestFirst (relation.filter fun r => p r.1)).map Prod.fst

def MetricSource.effective : MetricSource → (MetricPointRow → Bool) → List MetricPointRow
  | .project points, p => effectiveWhere points p
  | .parquet files, p => effectiveOf files.relation p

def MetricSource.effectiveRows (source : MetricSource) (query : MetricQuery) : List MetricPointRow :=
  source.effective (effectiveClause query.runId query.metricKey query.startStep query.endStep)

/-! ## Buckets -/

/-- `row_number() OVER (ORDER BY step) - 1` -/
def ordinal {β : Type*} (step : β → Int) (rows : List β) (x : β) : Nat :=
  rowNumber (fun _ => ()) (ordered step) rows x - 1

/-- `floor(ordinal * bucket_count / source_row_count)` -/
def bucket {β : Type*} (step : β → Int) (bucketCount : Nat) (rows : List β) (x : β) : Nat :=
  ordinal step rows x * bucketCount / rows.length

/-- A double that was a window's sort key, as DuckDB decodes it from the key: the
zeros are one, and so are the NaNs. -/
def F64.fromSortKey (x : F64) : F64 :=
  if x.isNan then ⟨0x7ff8000000000000⟩ else if x.magnitude = 0 then ⟨0⟩ else x

def MetricPointRow.fromSortKey (row : MetricPointRow) : MetricPointRow :=
  { row with valueF64 := row.valueF64.fromSortKey }

/-- The orders of `first_rank`, `last_rank`, `min_rank` and `max_rank`. -/
def screenOrders : List (MetricPointRow → MetricPointRow → Bool) :=
  [ordered fun row => row.step, ordered fun row => -row.step,
    ordered fun row => toLex (row.valueF64.key, row.step), ordered fun row => toLex (-row.valueF64.key, row.step)]

/-! ## Statements -/

/-- `ORDER BY step`, each row with the same count. -/
def countedRows (count : Nat) (rows : List MetricPointRow) : List (MetricPointRow × Nat) :=
  (orderBy (fun row => row.step) rows).map fun row => (row, count)

def fullRows (source : MetricSource) (query : MetricQuery) : List (MetricPointRow × Nat) :=
  let effective := source.effectiveRows query
  countedRows effective.length effective

def screenRows (source : MetricSource) (query : MetricQuery) (bucketCount : Nat) : List (MetricPointRow × Nat) :=
  let effective := source.effectiveRows query
  let selected := selectFirst (bucket (fun row => row.step) bucketCount effective) screenOrders effective
  countedRows effective.length (selected.map MetricPointRow.fromSortKey)

def countEffective (source : MetricSource) (query : MetricQuery) : Nat := (source.effectiveRows query).length

/-- The `DOUBLE` nearest to an integer, ties to even. -/
def nearestDouble (n : Int) : Int :=
  let unit := 2 ^ (n.natAbs.log2 + 1 - 53)
  let quotient := n.natAbs / unit
  let rest := n.natAbs % unit
  let up := decide (unit < 2 * rest) || (decide (unit = 2 * rest) && quotient % 2 == 1)
  n.sign * ((quotient + if up then 1 else 0) * unit : Nat)

/-- What the `lttb` extension is to a connection: whether it could be loaded,
and the points it samples. -/
structure LttbExtension where
  loaded : Except StorageError Unit
  lttb : List (Int × F64) → Nat → List (Int × F64)

/-- Every sampled point joined with the rows at its step; steps count from the least. -/
def lttbRows (extension : LttbExtension) (source : MetricSource) (query : MetricQuery) (maxPoints : Nat) :
    List (MetricPointRow × Nat) :=
  let effective := source.effectiveRows query
  let least := ((effective.map fun row => row.step).min?).getD 0
  let sampled := extension.lttb (effective.map fun row => (row.step - least, row.valueF64)) maxPoints
  countedRows effective.length
    (sampled.flatMap fun point => effective.filter fun row => nearestDouble (row.step - least) == point.1)

/-! ## query_metric -/

section
variable (accepts : Int → Bool)

/-- `accepts` are the milliseconds that `timestamp_millis_opt` can represent. -/
def timestampFromMillis (field : String) (millis : Int) : Except StorageError Int :=
  if accepts millis then .ok millis else .error (.invalidTimestamp field millis)

def intoMetricPoint (row : MetricPointRow) : Except StorageError MetricPoint := do
  let timestamp ← timestampFromMillis accepts "timestamp" row.timestamp
  let ingestedAt ← timestampFromMillis accepts "ingested_at" row.ingestedAt
  return ⟨row.runId, row.metricKey, row.step, timestamp, row.valueF64, ingestedAt⟩

/-- The points of the result rows, and the count of the last of them. -/
def readRows : List (MetricPointRow × Nat) → MetricQueryResult → Except StorageError MetricQueryResult
  | [], result => .ok result
  | (row, count) :: rows, result => do
    let point ← intoMetricPoint accepts row
    readRows rows ⟨result.points ++ [point], count⟩

def executeQuery (rows : List (MetricPointRow × Nat)) : Except StorageError MetricQueryResult :=
  readRows accepts rows ⟨[], 0⟩

def queryMetric (extension : LttbExtension) (source : MetricSource) (query : MetricQuery) :
    Except StorageError MetricQueryResult :=
  if blank query.runId || blank query.metricKey then .error .invalidIdentity
  else match query.reduction with
    | .full => executeQuery accepts (fullRows source query)
    | .screenBudget pixelWidth pointsPerPixel =>
      let bucketCount := max (screenPoints pixelWidth pointsPerPixel / extremaPerBucket) 1
      if bucketCount < 2 ^ 63 then executeQuery accepts (screenRows source query bucketCount)
      else .error (.queryMaxPointsTooLarge (bucketCount * extremaPerBucket))
    | .lttb maxPoints =>
      if countEffective source query ≤ maxPoints then executeQuery accepts (fullRows source query)
      else if maxPoints < 2 ^ 63 then do
        extension.loaded
        executeQuery accepts (lttbRows extension source query maxPoints)
      else .error (.queryMaxPointsTooLarge maxPoints)

end

end Pulseon
