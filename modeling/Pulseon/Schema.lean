import Pulseon.Queries

/-!
# The metric_points schema

`validate_metric_point_schema` over the columns DuckDB reports for a relation. Its
errors are the variants of the storage error that it returns.
-/

namespace Pulseon

inductive LogicalType
  | string | int64 | timestamp | float64
deriving DecidableEq, Repr

def requiredColumns : List (String × LogicalType) :=
  [("run_id", .string), ("metric_key", .string), ("metric_key_encoded", .string), ("step", .int64),
    ("timestamp", .timestamp), ("value_f64", .float64), ("ingested_at", .timestamp)]

/-- `trim().to_ascii_uppercase()` -/
def normalType (actual : String) : List Char :=
  (((actual.toList.dropWhile whiteSpace).reverse.dropWhile whiteSpace).reverse).map Char.toUpper

namespace LogicalType

def name : LogicalType → String
  | string => "string"
  | int64 => "int64"
  | timestamp => "timestamp"
  | float64 => "float64"

def accepts (expected : LogicalType) (actual : String) : Bool :=
  let actual := normalType actual
  match expected with
  | string => actual == "VARCHAR".toList
  | int64 => actual == "BIGINT".toList
  | timestamp => "TIMESTAMP".toList.isPrefixOf actual
  | float64 => actual == "DOUBLE".toList

end LogicalType

structure ColumnSchema where
  name : String
  dataType : String
  nullable : Bool
deriving DecidableEq, Repr

structure SchemaReport where
  columns : List ColumnSchema
  additiveColumns : List String
deriving DecidableEq, Repr

inductive SchemaError
  | duplicateColumn (name : String)
  | missingColumn (name : String)
  | incompatibleColumnType (name expected actual : String)
  | incompatibleAdditiveColumn (name : String)
deriving DecidableEq, Repr

/-- The loop that fills `by_name`, whose columns come with their names. -/
def indexByName :
    List ColumnSchema → (String → Option ColumnSchema) → Except SchemaError (String → Option ColumnSchema)
  | [], byName => .ok byName
  | column :: rest, byName =>
    if (byName column.name).isSome then .error (.duplicateColumn column.name)
    else indexByName rest (Function.update byName column.name (some column))

/-- The loop over the required columns. -/
def checkRequired (byName : String → Option ColumnSchema) : List (String × LogicalType) → Except SchemaError Unit
  | [] => .ok ()
  | (name, expected) :: rest =>
    match byName name with
    | none => .error (.missingColumn name)
    | some column =>
      if expected.accepts column.dataType then checkRequired byName rest
      else .error (.incompatibleColumnType name expected.name column.dataType)

def isRequired (name : String) : Bool := requiredColumns.any fun required => required.1 == name

/-- The loop that collects the additive columns. -/
def additiveOf : List ColumnSchema → Except SchemaError (List String)
  | [] => .ok []
  | column :: rest =>
    if isRequired column.name then additiveOf rest
    else if !column.nullable then .error (.incompatibleAdditiveColumn column.name)
    else do
      let additive ← additiveOf rest
      return column.name :: additive

def validateMetricPointSchema (columns : List ColumnSchema) : Except SchemaError SchemaReport := do
  let byName ← indexByName columns fun _ => none
  checkRequired byName requiredColumns
  let additiveColumns ← additiveOf columns
  return ⟨columns, orderBy (fun name => name) additiveColumns⟩

end Pulseon
